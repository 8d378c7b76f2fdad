import Mathlib.Data.List.TakeWhile
import KestrelLang.Value.Coercion

/-! # Decimal texts of integers

An integer is printed digit by digit, and a text is read digit by digit. The two agree on all words, the smallest one
among them, whose size is no word.

* `digitsValue_toDigits` — the digits of a natural number have its value.
* `readInt64?_toString` — the decimal text of a word reads as that word.
* `trimBlank_pad` — trimming takes off the white space at both ends of a text without white space.
* `Padded` — the decimal text of a word, with white space around it.
* `numericOfText_padded` — such a text stands for the word. -/

namespace KestrelLang

open Text (isBlank trimBlank)

/-! ## White space -/

namespace Text

theorem isBlank_of_isDigit {c : Char} (h : c.isDigit = true) : isBlank c = false := by
  simp only [Char.isDigit, Bool.and_eq_true, decide_eq_true_eq, UInt32.le_iff_toNat_le] at h
  have hlow : 48 ≤ c.toNat := h.1
  have hhigh : c.toNat ≤ 57 := h.2
  have hspace : c ≠ ' ' := by
    rintro rfl
    exact absurd hlow (by decide)
  rw [isBlank, if_pos (by omega)]
  simp [hspace]
  omega

theorem dropWhile_of_none {cs : List Char} (h : ∀ c ∈ cs, isBlank c = false) : cs.dropWhile isBlank = cs := by
  cases cs with
  | nil => rfl
  | cons c cs => rw [List.dropWhile_cons_of_neg (by simp [h c List.mem_cons_self])]

/-- Trimming takes off what is blank at both ends, and nothing more. -/
theorem trimBlank_pad {before cs after : List Char} (hbefore : ∀ c ∈ before, isBlank c = true)
    (hcs : ∀ c ∈ cs, isBlank c = false) (hafter : ∀ c ∈ after, isBlank c = true) :
    trimBlank (before ++ cs ++ after) = cs := by
  have hnone : after.dropWhile isBlank = [] := List.dropWhile_eq_nil_iff.mpr hafter
  have hfront : (before ++ cs ++ after).dropWhile isBlank = if cs.isEmpty then [] else cs ++ after := by
    rw [List.append_assoc, List.dropWhile_append_of_pos hbefore, List.dropWhile_append, dropWhile_of_none hcs, hnone]
  rw [trimBlank, hfront]
  by_cases hempty : cs.isEmpty
  · simp [List.isEmpty_iff.mp hempty]
  · rw [if_neg hempty, List.reverse_append, List.dropWhile_append_of_pos (by simpa using hafter),
      dropWhile_of_none (by simpa using hcs), List.reverse_reverse]

end Text

namespace Number

/-! ## Digits -/

theorem digitsValue_toDigits (n : Nat) : digitsValue (Nat.toDigits 10 n) = n := by
  have hfold := @Nat.ofDigitChars_eq_foldl 10 (Nat.toDigits 10 n) 0
  rw [Nat.ofDigitChars_ten_toDigits] at hfold
  exact hfold.symm

theorem all_isDigit_toDigits (n : Nat) : (Nat.toDigits 10 n).all Char.isDigit = true :=
  List.all_eq_true.mpr fun _ hc => Nat.isDigit_of_mem_toDigits (by decide) (by decide) hc

theorem splitSign_of_digits {cs : List Char} (h : cs.all Char.isDigit = true) : splitSign cs = (false, cs) := by
  unfold splitSign
  split
  · simp at h
  · simp at h
  · rfl

/-! ## Integers -/

/-- The characters of a decimal text: the digits of the size, behind a minus if the integer is negative. -/
theorem toList_toString (i : Int) :
    (toString i).toList = (if i < 0 then ['-'] else []) ++ Nat.toDigits 10 i.natAbs := by
  cases i with
  | ofNat m => simp [Int.toString_eq_repr, Int.repr, Nat.toList_repr]
  | negSucc m => simp [Int.toString_eq_repr, Int.repr, Nat.toList_repr]

theorem splitSign_toString (i : Int) :
    splitSign (toString i).toList = (decide (i < 0), Nat.toDigits 10 i.natAbs) := by
  rw [toList_toString]
  by_cases h : i < 0
  · simp [h, splitSign]
  · simpa [h] using splitSign_of_digits (all_isDigit_toDigits i.natAbs)

theorem isBlank_toString {i : Int} {c : Char} (h : c ∈ (toString i).toList) : isBlank c = false := by
  rw [toList_toString] at h
  obtain h | h := List.mem_append.mp h
  · split at h
    · obtain rfl := List.mem_singleton.mp h
      decide
    · simp at h
  · exact Text.isBlank_of_isDigit (List.all_eq_true.mp (all_isDigit_toDigits _) c h)

/-- The decimal text of a word reads as that word. The size of a negative word may be one more than that of others. -/
theorem readInt64?_toString (n : Int64) : readInt64? (toString n.toInt) = some n := by
  have hlow := n.le_toInt
  have hhigh := n.toInt_lt
  have hpow : Nat.pow 2 63 = 2 ^ 63 := rfl
  have hdigits : (Nat.toDigits 10 n.toInt.natAbs).isEmpty = false := by simp [Nat.toDigits_ne_nil]
  simp only [readInt64?, splitSign_toString, hdigits, all_isDigit_toDigits, digitsValue_toDigits]
  by_cases h : n.toInt < 0
  · have hsize : n.toInt.natAbs ≤ Nat.pow 2 63 := by omega
    have hvalue : -(n.toInt.natAbs : Int) = n.toInt := by omega
    simp only [h, hsize, hvalue, decide_true, Bool.not_true, Bool.or_false, Bool.false_eq_true, if_false, if_true,
      Int64.ofInt_toInt]
  · have hsize : n.toInt.natAbs < Nat.pow 2 63 := by omega
    have hvalue : (n.toInt.natAbs : Int) = n.toInt := by omega
    simp only [h, hsize, hvalue, decide_false, Bool.not_true, Bool.or_false, Bool.false_eq_true, if_false, if_true,
      Int64.ofInt_toInt]

end Number

/-! ## White space around a text -/

/-- The text is `core` with white space around it. -/
def Padded (core t : String) : Prop :=
  ∃ before after : List Char, (∀ c ∈ before, isBlank c = true) ∧ (∀ c ∈ after, isBlank c = true) ∧
    t.toList = before ++ core.toList ++ after

theorem Padded.refl (core : String) : Padded core core := ⟨[], [], by simp, by simp, by simp⟩

/-- The decimal text of a word stands for that word, whatever white space is around it. -/
theorem numericOfText_padded {n : Int64} {t : String} (h : Padded (toString n.toInt) t) : numericOfText t = .int n := by
  obtain ⟨before, after, hbefore, hafter, ht⟩ := h
  have htrim : Text.trim t = toString n.toInt := by
    rw [Text.trim, ht, Text.trimBlank_pad hbefore (fun c hc => Number.isBlank_toString hc) hafter, String.ofList_toList]
  simp only [numericOfText, htrim, Number.readInt64?_toString]

end KestrelLang
