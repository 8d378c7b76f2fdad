import Mathlib.Algebra.Group.Nat.Defs
import KestrelLang.Proofs.Value.Likeness
import KestrelLang.Proofs.Value.Ranges

/-! # Elements of arrays

Assignment and lookup find their place separately, and between the two the array may have grown. They agree on the
place all the same: a position that counts from the back lies inside of the array, so nothing grows.

* `fromFront` — the place that an index means, as an integer.
* `position?_cases` — the words compute that place, as long as the number of elements has a word.
* `getElem?_putElement` — all elements after one was put.
* `Assigned` — what an assignment leaves behind, in the array and around it.
* `assignment_and_lookup_agree` — assignment and lookup for every array and every index. -/

namespace KestrelLang

/-! ## Places -/

/-- The place that the index `i` means among `n` elements: a negative one counts from the back. -/
def fromFront (n : Nat) (i : Int) : Int := if 0 ≤ i then i else i + n

section Places

variable {n : Nat} {i : Int64}

theorem fromFront_of_nonneg {i : Int} (h : 0 ≤ i) : fromFront n i = i := if_pos h

theorem fromFront_of_neg {i : Int} (h : i < 0) : fromFront n i = i + n := if_neg (by omega)

theorem toInt_ofNat_of_fits (h : n < 2 ^ 63) : (Int64.ofNat n).toInt = n := by
  have hword : (Int64.ofNat n).toInt = (n : Int).bmod (2 ^ 64) := Int64.toInt_ofNat
  rw [hword, Int.bmod_eq_of_le] <;> omega

theorem toInt_add_ofNat (h : n < 2 ^ 63) (hi : i.toInt < 0) : (i + Int64.ofNat n).toInt = i.toInt + n := by
  have hlow := i.le_toInt
  rw [Int64.toInt_add, toInt_ofNat_of_fits h, Int.bmod_eq_of_le] <;> omega

/-- There is no position exactly if the place lies in front of the first element; else the position is the place. -/
theorem position?_cases (h : n < 2 ^ 63) (i : Int64) :
    (fromFront n i.toInt < 0 ∧ position? n i = none) ∨
      ∃ r : Int64, position? n i = some r ∧ r.toInt = fromFront n i.toInt ∧ 0 ≤ r.toInt := by
  -- The word that the position is taken from, whatever its sign.
  obtain ⟨word, hword, hplace⟩ : ∃ word : Int64, position? n i = (if word < 0 then none else some word) ∧
      word.toInt = fromFront n i.toInt := by
    by_cases hi : i.toInt < 0
    · have hback : i < 0 := Int64.lt_iff_toInt_lt.mpr hi
      refine ⟨i + Int64.ofNat n, by simp only [position?, if_pos hback], ?_⟩
      rw [toInt_add_ofNat h hi, fromFront_of_neg hi]
    · have hahead : ¬ i < 0 := mt Int64.lt_iff_toInt_lt.mp hi
      exact ⟨i, by simp only [position?, if_neg hahead], (fromFront_of_nonneg (by omega)).symm⟩
  by_cases hfront : word.toInt < 0
  · left
    rw [hword, if_pos (Int64.lt_iff_toInt_lt.mpr hfront)]
    exact ⟨hplace ▸ hfront, rfl⟩
  · right
    refine ⟨word, ?_, hplace, by omega⟩
    rw [hword, if_neg (mt Int64.lt_iff_toInt_lt.mp hfront)]

/-- The place does not move when the array grows just enough to have it. -/
theorem fromFront_max {i : Int} (h : 0 ≤ fromFront n i) :
    fromFront (max n ((fromFront n i).toNat + 1)) i = fromFront n i := by
  by_cases hi : 0 ≤ i
  · rw [fromFront_of_nonneg hi, fromFront_of_nonneg hi]
  · rw [fromFront_of_neg (n := n) (by omega)] at h ⊢
    rw [fromFront_of_neg (by omega)]
    omega

end Places

/-! ## Putting an element -/

section Putting

variable (r : Nat) (v : Value) (xs : Array Value)

@[simp]
theorem size_putElement : (putElement r v xs).size = max xs.size (r + 1) := by
  unfold putElement
  split
  · rw [Array.size_setIfInBounds]
    omega
  · rw [Array.size_push, Array.size_append, Array.size_replicate]
    omega

theorem getElem?_putElement (j : Nat) :
    (putElement r v xs)[j]? =
      if j = r then some v else if j < xs.size then xs[j]? else if j < r then some .undefined else none := by
  unfold putElement
  by_cases hin : r < xs.size
  · rw [if_pos hin, Array.getElem?_setIfInBounds]
    grind
  · rw [if_neg hin, Array.getElem?_push, Array.size_append, Array.size_replicate, Array.getElem?_append,
      Array.getElem?_replicate]
    grind

end Putting

/-! ## Assignment -/

/-- The store `s'` is `s` after `v` was put at position `r` of an array. Every name still has its value, so each name
    that stood for the array stands for it now, and so does each element of another array. -/
structure Assigned (s s' : Store) (ref r : Nat) (v : Value) : Prop where
  size : (s'.elements ref).size = max (s.elements ref).size (r + 1)
  put : (s'.elements ref)[r]? = some v
  kept : ∀ j < (s.elements ref).size, j ≠ r → (s'.elements ref)[j]? = (s.elements ref)[j]?
  between : ∀ j, (s.elements ref).size ≤ j → j < r → (s'.elements ref)[j]? = some .undefined
  others : ∀ other, other ≠ ref → s'.elements other = s.elements other
  names : ∀ name id, s'.get? name id = s.get? name id

theorem indexSet_array (s : Store) (ref : Nat) (index v : Value) : indexSet s (.array ref) index v =
    match position? (s.elements ref).size (index.toNumeric s).toInt64 with
    | none => (.error (.fault .indexOutOfRange), s)
    | some r =>
      if maxElements ≤ r then (.error (.fault (.indexTooLarge r)), s)
      else (.ok (), s.modifyArray ref (putElement r.toInt.toNat v)) := by
  unfold indexSet
  rfl

section Assignment

variable {s s' : Store} {ref r : Nat} {v : Value}

theorem get?_modifyArray (s : Store) (ref : Nat) (f : Array Value → Array Value) (name : String) (id : Nat) :
    (s.modifyArray ref f).get? name id = s.get? name id := by
  have howner : ∀ id, (s.modifyArray ref f).owner? name id = s.owner? name id := by
    intro id
    induction id using Nat.strongRecOn with
    | _ id ih =>
      rw [Store.owner?, Store.owner?]
      have henv : (s.modifyArray ref f).env id = s.env id := rfl
      have hparent : (s.modifyArray ref f).parent id = s.parent id := rfl
      rw [henv, hparent]
      cases s.parent id with
      | none => rfl
      | some p =>
        by_cases hp : p < id
        · simp only [hp, if_true, ih p hp]
        · simp only [hp, if_false]
  rw [Store.get?, Store.get?, howner]
  rfl

theorem assigned_modifyArray (href : ref < s.arrays.size) :
    Assigned s (s.modifyArray ref (putElement r v)) ref r v := by
  have hhere : (s.modifyArray ref (putElement r v)).elements ref = putElement r v (s.elements ref) := by
    rw [elements_modifyArray, if_pos ⟨rfl, href⟩]
  refine ⟨?_, ?_, fun j hj hne => ?_, fun j hj hlt => ?_, fun other hne => ?_, get?_modifyArray s ref _⟩
  · rw [hhere, size_putElement]
  · rw [hhere, getElem?_putElement, if_pos rfl]
  · rw [hhere, getElem?_putElement, if_neg hne, if_pos hj]
  · rw [hhere, getElem?_putElement, if_neg (by omega), if_neg (by omega), if_pos hlt]
  · rw [elements_modifyArray, if_neg fun h => hne h.1.symm]

theorem Assigned.toNumeric (h : Assigned s s' ref r v) {index : Value} (hne : index ≠ .array ref) :
    index.toNumeric s' = index.toNumeric s := by
  cases index with
  | array other => simp only [Value.toNumeric, h.others other fun heq => hne (heq ▸ rfl)]
  | _ => rfl

end Assignment

/-! ## Lookup -/

theorem indexGet_array (s : Store) (ref : Nat) (index : Value) : indexGet s (.array ref) index =
    match position? (s.elements ref).size (index.toNumeric s).toInt64 with
    | some r => .ok ((s.elements ref)[r.toInt.toNat]?.getD .undefined)
    | none => .ok .undefined := by
  unfold indexGet
  rfl

section Lookup

variable {s : Store} {ref : Nat} {index : Value} {r : Int}

theorem indexGet_of_inside (hword : (s.elements ref).size < 2 ^ 63)
    (hr : fromFront (s.elements ref).size (index.toNumeric s).toInt64.toInt = r) (h : 0 ≤ r)
    {v : Value} (hv : (s.elements ref)[r.toNat]? = some v) : indexGet s (.array ref) index = .ok v := by
  obtain ⟨hneg, -⟩ | ⟨word, hposition, hplace, -⟩ := position?_cases hword (index.toNumeric s).toInt64
  · omega
  · simp only [indexGet_array, hposition, hplace, hr, hv, Option.getD_some]

theorem indexGet_of_outside (hword : (s.elements ref).size < 2 ^ 63)
    (hr : fromFront (s.elements ref).size (index.toNumeric s).toInt64.toInt = r)
    (h : ¬ (0 ≤ r ∧ r < (s.elements ref).size)) : indexGet s (.array ref) index = .ok .undefined := by
  obtain ⟨-, hnone⟩ | ⟨word, hposition, hplace, hnonneg⟩ := position?_cases hword (index.toNumeric s).toInt64
  · simp only [indexGet_array, hnone]
  · have hbeyond : (s.elements ref)[r.toNat]? = none := Array.getElem?_eq_none (by omega)
    simp only [indexGet_array, hposition, hplace, hr, hbeyond, Option.getD_none]

end Lookup

/-! ## Both -/

/-- Assignment and lookup at the place `r` that an index means in an array. Assignment fails, and leaves everything as
    it was, exactly if the place is in front of the first element or not below 2^24. Else it does what `Assigned`
    says, and a lookup by the same index finds the value; only the array itself, whose number is its length, may mean
    another place afterwards. Lookup never fails: it gives the element at the place, and undef where there is none. -/
theorem assignment_and_lookup_agree (s : Store) (ref : Nat) (index v : Value) {r : Int}
    (href : ref < s.arrays.size) (hword : (s.elements ref).size < 2 ^ 63)
    (hr : fromFront (s.elements ref).size (index.toNumeric s).toInt64.toInt = r) :
    (r < 0 → indexSet s (.array ref) index v = (.error (.fault .indexOutOfRange), s)) ∧
    (2 ^ 24 ≤ r → ∃ word : Int64, word.toInt = r ∧
      indexSet s (.array ref) index v = (.error (.fault (.indexTooLarge word)), s)) ∧
    (0 ≤ r → r < 2 ^ 24 → ∃ s', indexSet s (.array ref) index v = (.ok (), s') ∧ Assigned s s' ref r.toNat v ∧
      (index ≠ .array ref → indexGet s' (.array ref) index = .ok v)) ∧
    (0 ≤ r → r < (s.elements ref).size →
      ∃ w, (s.elements ref)[r.toNat]? = some w ∧ indexGet s (.array ref) index = .ok w) ∧
    (r < 0 ∨ (s.elements ref).size ≤ r → indexGet s (.array ref) index = .ok .undefined) := by
  refine ⟨fun hfront => ?_, fun hlarge => ?_, fun hnonneg hbound => ?_, fun hnonneg hin => ?_, fun hout => ?_⟩
  · obtain ⟨-, hnone⟩ | ⟨word, -, hplace, hnonneg⟩ := position?_cases hword (index.toNumeric s).toInt64
    · simp only [indexSet_array, hnone]
    · omega
  · obtain ⟨hneg, -⟩ | ⟨word, hposition, hplace, -⟩ := position?_cases hword (index.toNumeric s).toInt64
    · omega
    · have hrefused : maxElements ≤ word := by
        rw [Int64.le_iff_toInt_le, toInt_maxElements]
        omega
      exact ⟨word, hplace.trans hr, by simp only [indexSet_array, hposition, if_pos hrefused]⟩
  · obtain ⟨hneg, -⟩ | ⟨word, hposition, hplace, -⟩ := position?_cases hword (index.toNumeric s).toInt64
    · omega
    · have hroom : ¬ maxElements ≤ word := by
        rw [Int64.le_iff_toInt_le, toInt_maxElements]
        omega
      have hassigned := assigned_modifyArray (r := r.toNat) (v := v) href
      refine ⟨_, by simp only [indexSet_array, hposition, if_neg hroom, hplace, hr], hassigned, fun hne => ?_⟩
      -- The array grew just enough, so the index means the same place in it as before.
      have hsame : fromFront (max (s.elements ref).size (r.toNat + 1)) (index.toNumeric s).toInt64.toInt = r := by
        rw [← hr]
        exact fromFront_max (by omega)
      refine indexGet_of_inside ?_ ?_ hnonneg hassigned.put
      · rw [hassigned.size]
        omega
      · rw [hassigned.size, hassigned.toNumeric hne, hsame]
  · have hsome := Array.getElem?_eq_getElem (show r.toNat < (s.elements ref).size by omega)
    exact ⟨_, hsome, indexGet_of_inside hword hr hnonneg hsome⟩
  · exact indexGet_of_outside hword hr (by omega)

/-- With the text `" 4 "` as the index into an array of two, two elements come in between, and the same text finds the
    new one. The smallest word means no place at all. -/
theorem text_index_pads_the_array :
    ∃ s : Store, s.elements 0 = #[.int 1, .int 2] ∧
      (∃ s', indexSet s (.array 0) (.str " 4 ") (.array 0) = (.ok (), s') ∧ Assigned s s' 0 4 (.array 0) ∧
        indexGet s' (.array 0) (.str " 4 ") = .ok (.array 0)) ∧
      indexSet s (.array 0) (.int (-9223372036854775808)) (.int 3) = (.error (.fault .indexOutOfRange), s) := by
  obtain ⟨-, -, hgrows, -⟩ := assignment_and_lookup_agree (r := 4) ⟨#[], #[#[.int 1, .int 2]]⟩ 0
    (.str " 4 ") (.array 0) (by decide) (by decide) (by decide +kernel)
  obtain ⟨hfront, -⟩ := assignment_and_lookup_agree (r := -9223372036854775806) ⟨#[], #[#[.int 1, .int 2]]⟩ 0
    (.int (-9223372036854775808)) (.int 3) (by decide) (by decide) (by decide +kernel)
  obtain ⟨s', hset, hassigned, hget⟩ := hgrows (by decide) (by decide)
  exact ⟨_, rfl, ⟨s', hset, hassigned, hget (by simp)⟩, hfront (by decide)⟩

end KestrelLang
