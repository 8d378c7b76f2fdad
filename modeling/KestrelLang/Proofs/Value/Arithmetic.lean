import Mathlib.Algebra.Group.Nat.Defs
import KestrelLang.Proofs.Number.Decimal
import KestrelLang.Value.Operators

/-! # Arithmetic on integers and their texts

An integer and its decimal text are the same to arithmetic, so a script may keep numbers as texts without losing any.

* `Value.Writes` — a value that is an integer, or its decimal text with white space around it.
* `Computes` — what arithmetic gives for two integers, by the integers themselves.
* `computes_binaryOp` — the operators give that.
* `integers_survive_text` — integers and their texts are the same to arithmetic, whose results are those of integers. -/

namespace KestrelLang

def BinaryOp.isArithmetic : BinaryOp → Bool
  | .add | .sub | .mul | .div | .mod => true
  | _ => false

/-- The value is the integer, or its decimal text with white space around it. -/
inductive Value.Writes (s : Store) (n : Int64) : Value → Prop
  | int : Writes s n (.int n)
  | text {t : String} (h : Padded ((Value.int n).text s) t) : Writes s n (.str t)

/-- What an operator of arithmetic gives for two integers. Sums, differences and products are taken modulo 2^64, and so
    is the one quotient that is too large for a word. A quotient that is not whole is the quotient of the doubles. -/
inductive Computes (a b : Int64) : BinaryOp → Except Trouble Value → Prop
  | sum {c : Int64} (hc : c.toInt = (a.toInt + b.toInt).bmod (2 ^ 64)) : Computes a b .add (.ok (.int c))
  | difference {c : Int64} (hc : c.toInt = (a.toInt - b.toInt).bmod (2 ^ 64)) : Computes a b .sub (.ok (.int c))
  | product {c : Int64} (hc : c.toInt = (a.toInt * b.toInt).bmod (2 ^ 64)) : Computes a b .mul (.ok (.int c))
  | quotient {q : Int64} (hb : b ≠ 0) (hdvd : b.toInt ∣ a.toInt) (hq : q.toInt = (a.toInt / b.toInt).bmod (2 ^ 64)) :
      Computes a b .div (.ok (.int q))
  | fraction (hb : b ≠ 0) (hdvd : ¬ b.toInt ∣ a.toInt) :
      Computes a b .div (.ok (.float (Binary64.ofInt64 a / Binary64.ofInt64 b)))
  | divisionByZero (hb : b = 0) : Computes a b .div (.error (.fault .divisionByZero))
  | remainder {r : Int64} (hb : b ≠ 0) (hr : r.toInt = a.toInt.tmod b.toInt) : Computes a b .mod (.ok (.int r))
  | modulusByZero (hb : b = 0) : Computes a b .mod (.error (.fault .modulusByZero))

section Results

variable {s : Store} {a b n : Int64} {op : BinaryOp} {r : Except Trouble Value}

theorem Value.text_int (s : Store) (n : Int64) : (Value.int n).text s = toString n.toInt := by
  rw [Value.text, Value.textWithin]

theorem Value.Writes.toNumeric {v : Value} (h : v.Writes s n) : v.toNumeric s = .int n := by
  cases h with
  | int => rfl
  | text ht =>
    rw [Value.text_int] at ht
    rw [Value.toNumeric, numericOfText_padded ht]

/-- Arithmetic only looks at the numbers that its operands stand for. -/
theorem binaryOp_congr (hop : op.isArithmetic = true) {left left' right right' : Value}
    (hleft : left.toNumeric s = left'.toNumeric s) (hright : right.toNumeric s = right'.toNumeric s) :
    binaryOp s op left right = binaryOp s op left' right' := by
  cases op with
  | add | sub | mul | div | mod => simp only [binaryOp, hleft, hright]
  | _ => cases hop

/-- The remainder of words is zero exactly if the one integer divides the other. -/
theorem mod_eq_zero_iff_dvd (a b : Int64) : a % b = 0 ↔ b.toInt ∣ a.toInt := by
  rw [← Int64.toInt_inj, Int64.toInt_mod, Int64.toInt_zero, Int.dvd_iff_tmod_eq_zero]

theorem computes_div (a b : Int64) : Computes a b .div (arithmetic .div (.int a) (.int b)) := by
  by_cases hb : b = 0
  · simpa only [arithmetic, intArith, if_pos hb] using .divisionByZero hb
  · by_cases hdvd : b.toInt ∣ a.toInt
    · have hquotient : (a / b).toInt = (a.toInt / b.toInt).bmod (2 ^ 64) := by
        rw [Int64.toInt_div, Int.tdiv_eq_ediv_of_dvd hdvd]
      simpa only [arithmetic, intArith, if_neg hb, if_pos ((mod_eq_zero_iff_dvd a b).mpr hdvd)] using
        .quotient hb hdvd hquotient
    · simpa only [arithmetic, intArith, if_neg hb, if_neg (mt (mod_eq_zero_iff_dvd a b).mp hdvd)] using
        .fraction hb hdvd

theorem computes_mod (a b : Int64) : Computes a b .mod (arithmetic .mod (.int a) (.int b)) := by
  by_cases hb : b = 0
  · simpa only [arithmetic, intArith, if_pos hb] using .modulusByZero hb
  · simpa only [arithmetic, intArith, if_neg hb] using .remainder hb (Int64.toInt_mod a b)

theorem computes_binaryOp (s : Store) (a b : Int64) (hop : op.isArithmetic = true) :
    ∃ r, binaryOp s op (.int a) (.int b) = (r, s) ∧ Computes a b op r := by
  cases op with
  | add => exact ⟨_, rfl, .sum (Int64.toInt_add a b)⟩
  | sub => exact ⟨_, rfl, .difference (Int64.toInt_sub a b)⟩
  | mul => exact ⟨_, rfl, .product (Int64.toInt_mul a b)⟩
  | div => exact ⟨_, rfl, computes_div a b⟩
  | mod => exact ⟨_, rfl, computes_mod a b⟩
  | _ => cases hop

theorem Computes.error_iff (h : Computes a b op r) :
    (∃ t, r = .error t) ↔ (op = .div ∨ op = .mod) ∧ b = 0 := by
  cases h <;> simp_all

theorem Computes.not_abort (h : Computes a b op r) : r ≠ .error .abort := by
  cases h <;> simp

theorem Computes.whole_iff (h : Computes a b .div r) :
    (∃ q, r = .ok (.int q)) ↔ b ≠ 0 ∧ b.toInt ∣ a.toInt := by
  cases h <;> simp_all

/-- The decimal text of an integer, with any white space around it, stands for that integer. So arithmetic gives the
    same, be it a result or an error, for two integers and for their texts on either side or on both; it gives what
    `Computes` says. The only errors are about quotients and remainders by zero, a quotient is an integer exactly if the
    integers divide, and nothing ends the program. -/
theorem integers_survive_text (s : Store) (a b : Int64) :
    (∀ t, Padded ((Value.int a).text s) t → (Value.str t).toNumeric s = .int a) ∧
    ∀ op : BinaryOp, op.isArithmetic = true → ∃ r, binaryOp s op (.int a) (.int b) = (r, s) ∧
      (∀ left right : Value, left.Writes s a → right.Writes s b → binaryOp s op left right = (r, s)) ∧
      Computes a b op r ∧
      ((∃ t, r = .error t) ↔ (op = .div ∨ op = .mod) ∧ b = 0) ∧ r ≠ .error .abort ∧
      (op = .div → ((∃ q, r = .ok (.int q)) ↔ b ≠ 0 ∧ b.toInt ∣ a.toInt)) := by
  refine ⟨fun t ht => (Value.Writes.text ht).toNumeric, fun op hop => ?_⟩
  obtain ⟨r, hresult, hcomputes⟩ := computes_binaryOp s a b hop
  refine ⟨r, hresult, fun left right hleft hright => ?_, hcomputes, hcomputes.error_iff, hcomputes.not_abort, ?_⟩
  · rw [← hresult]
    exact binaryOp_congr hop hleft.toNumeric hright.toNumeric
  · rintro rfl
    exact hcomputes.whole_iff

/-- The smallest word as a text in white space, divided by the text of minus one: the quotient has no word, and comes
    out as the smallest word again. -/
theorem least_word_divides_by_minus_one :
    Padded "-9223372036854775808" "\n -9223372036854775808\t" ∧ Padded "-1" "-1" ∧ BinaryOp.isArithmetic .div = true ∧
      binaryOp .empty .div (.str "\n -9223372036854775808\t") (.str "-1") =
        (.ok (.int (-9223372036854775808)), .empty) := by
  have hleft : Padded "-9223372036854775808" "\n -9223372036854775808\t" :=
    ⟨['\n', ' '], ['\t'], List.all_eq_true.mp rfl, List.all_eq_true.mp rfl, by decide⟩
  obtain ⟨-, hall⟩ := integers_survive_text .empty (-9223372036854775808) (-1)
  obtain ⟨r, -, htexts, hcomputes, -⟩ := hall .div rfl
  refine ⟨hleft, .refl _, rfl, ?_⟩
  rw [htexts (.str "\n -9223372036854775808\t") (.str "-1") (.text hleft) (.text (.refl _))]
  cases hcomputes with
  | quotient hb hdvd hq =>
    have hsame := Int64.toInt_inj.mp (hq.trans (show _ = (-9223372036854775808 : Int64).toInt by decide))
    rw [hsame]
  | fraction hb hdvd => exact absurd (by decide) hdvd
  | divisionByZero hb => exact absurd hb (by decide)

end Results

end KestrelLang
