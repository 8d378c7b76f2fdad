import Mathlib.Data.List.Perm.Subperm
import KestrelLang.Machine.Step
import KestrelLang.Proofs.Value.Likeness

/-! # Operations on alike values

* `Value.Alike.toNumeric`, `Value.Alike.truthy`, `Value.Alike.text` — alike values stand for the same
  numbers and texts.
* `AnswersAlike` — the same trouble or alike values.
* `alike_binaryOp`, `alike_unaryOp`, `alike_indexGet`, `alike_indexSet`, `alike_apply` — operators and
  builtins give alike answers and stores. -/

namespace KestrelLang

variable {r : Pairing} {s₁ s₂ : Store} {v w v' w' : Value}

/-! ## Numbers and texts -/

theorem ValuesAlike.map_eq {α : Type} {f g : Value → α} {vs ws : List Value} (h : ValuesAlike r vs ws)
    (hfg : ∀ v w, v.Alike r w → f v = g w) : vs.map f = ws.map g := by
  induction h with
  | nil => rfl
  | cons hv _ ih => rw [List.map_cons, List.map_cons, hfg _ _ hv, ih]

theorem Store.Alike.size_eq (hs : s₁.Alike r s₂) {a b : Nat} (hab : r.arrays a b) :
    (s₁.elements a).size = (s₂.elements b).size :=
  (hs.elements hab).length_eq

theorem Value.Alike.toNumeric (h : v.Alike r w) (hs : s₁.Alike r s₂) :
    v.toNumeric s₁ = w.toNumeric s₂ := by
  cases h with
  | @plain v hv => cases v <;> first | rfl | exact hv.elim
  | array hab => simp only [Value.toNumeric, hs.size_eq hab]
  | sub _ => rfl
  | tailCalled _ => rfl

theorem Value.Alike.truthy (h : v.Alike r w) (hs : s₁.Alike r s₂) : v.truthy s₁ = w.truthy s₂ := by
  cases h with
  | @plain v hv => cases v <;> first | rfl | exact hv.elim
  | array hab => simp only [Value.truthy, Array.isEmpty, hs.size_eq hab]
  | sub _ => rfl
  | tailCalled _ => rfl

/-- The arrays `around` are different ones of the store, and `depth` further ones are enough to get to
    the bottom. -/
structure Inside (s : Store) (depth : Nat) (around : List Nat) : Prop where
  nodup : around.Nodup
  lt : ∀ a ∈ around, a < s.arrays.size
  enough : s.arrays.size < depth + around.length

namespace Inside

variable {s : Store} {depth : Nat} {around : List Nat}

theorem depth_ne_zero (h : Inside s depth around) : depth ≠ 0 := by
  rintro rfl
  have hsub : around ⊆ List.range s.arrays.size := fun a ha => List.mem_range.mpr (h.lt a ha)
  have hlength := (List.subperm_of_subset h.nodup hsub).length_le
  rw [List.length_range] at hlength
  have henough := h.enough
  omega

theorem push (h : Inside s (depth + 1) around) {a : Nat} (ha : a < s.arrays.size)
    (hnew : a ∉ around) : Inside s depth (a :: around) := by
  refine ⟨List.nodup_cons.mpr ⟨hnew, h.nodup⟩, List.forall_mem_cons.mpr ⟨ha, h.lt⟩, ?_⟩
  have henough := h.enough
  simp only [List.length_cons]
  omega

theorem nil (s : Store) : Inside s (s.arrays.size + 1) [] :=
  ⟨List.nodup_nil, fun a ha => absurd ha List.not_mem_nil, by simp⟩

end Inside

theorem mem_around (hs : s₁.Alike r s₂) {around around' : List Nat} {a b : Nat}
    (h : List.Forall₂ r.arrays around around') (hab : r.arrays a b) : a ∈ around ↔ b ∈ around' := by
  induction h with
  | nil => exact iff_of_false List.not_mem_nil List.not_mem_nil
  | cons hpair _ ih => rw [List.mem_cons, List.mem_cons, hs.arrays_unique hab hpair, ih]

theorem elements_of_le {s : Store} {ref : Nat} (h : s.arrays.size ≤ ref) : s.elements ref = #[] := by
  rw [Store.elements, Array.getElem?_eq_none h]
  rfl

theorem alike_textWithin (hs : s₁.Alike r s₂) {d₁ d₂ : Nat} {around₁ around₂ : List Nat}
    (hpairs : List.Forall₂ r.arrays around₁ around₂) (h₁ : Inside s₁ d₁ around₁)
    (h₂ : Inside s₂ d₂ around₂) (h : v.Alike r w) :
    v.textWithin s₁ d₁ around₁ = w.textWithin s₂ d₂ around₂ := by
  induction d₁ generalizing d₂ around₁ around₂ v w with
  | zero => exact absurd rfl h₁.depth_ne_zero
  | succ d₁ ih =>
    cases d₂ with
    | zero => exact absurd rfl h₂.depth_ne_zero
    | succ d₂ =>
      cases h with
      | @plain v hv => cases v <;> first | rfl | exact hv.elim
      | sub _ => rfl
      | tailCalled _ => rfl
      | @array a b hab =>
        have hmem : around₁.contains a = around₂.contains b := by
          rw [Bool.eq_iff_iff, List.contains_iff_mem, List.contains_iff_mem]
          exact mem_around hs hpairs hab
        simp only [Value.textWithin, hmem]
        split
        · rfl
        · rename_i hnew
          have hnew₂ : b ∉ around₂ := fun hb => hnew (List.contains_iff_mem.mpr hb)
          have hnew₁ : a ∉ around₁ := fun ha => hnew₂ ((mem_around hs hpairs hab).mp ha)
          obtain ⟨ha, hb⟩ | ⟨ha, hb, -⟩ := hs.arrays_lt hab
          · rw [(hs.elements hab).map_eq fun v w hvw =>
              ih (.cons hab hpairs) (h₁.push ha hnew₁) (h₂.push hb hnew₂) hvw]
          -- A number that stands for no array has no elements.
          · rw [elements_of_le ha, elements_of_le hb]
            rfl

theorem Value.Alike.text (h : v.Alike r w) (hs : s₁.Alike r s₂) : v.text s₁ = w.text s₂ :=
  alike_textWithin hs .nil (.nil s₁) (.nil s₂) h

/-! ## Operators -/

inductive AnswersAlike (r : Pairing) : Except Trouble Value → Except Trouble Value → Prop
  | ok {v w : Value} : v.Alike r w → AnswersAlike r (.ok v) (.ok w)
  | error (t : Trouble) : AnswersAlike r (.error t) (.error t)

theorem AnswersAlike.of_plain {x : Except Trouble Value} (h : ∀ v, x = .ok v → v.Plain) :
    AnswersAlike r x x := by
  cases x with
  | ok v => exact .ok (.plain (h v rfl))
  | error t => exact .error t

theorem alike_compareValues (hs : s₁.Alike r s₂) (h : v.Alike r w) (h' : v'.Alike r w') :
    compareValues s₁ v v' = compareValues s₂ w w' := by
  have hleft := h.toNumeric hs
  have hright := h'.toNumeric hs
  cases h with
  | @plain v hv =>
    cases v with
    | str a =>
      cases h' with
      | @plain v' hv' => cases v' <;> simp only [compareValues, hleft, hright]
      | _ => simp only [compareValues, hleft, hright]
    | _ => simp only [compareValues, hleft, hright]
  | _ => simp only [compareValues, hleft, hright]

theorem plain_arithmetic {op : ArithOp} {a b : Numeric} {v : Value} (h : arithmetic op a b = .ok v) :
    v.Plain := by
  have hmap : ∀ {x : Except Trouble Numeric}, x.map Numeric.toValue = .ok v → v.Plain := by
    intro x hx
    cases x with
    | error t => cases hx
    | ok n =>
      cases hx
      cases n <;> trivial
  unfold arithmetic at h
  split at h <;> exact hmap h

theorem plain_rangeOf {low high : Int64} {xs : Array Value} (h : rangeOf low high = .ok xs) :
    ∀ v ∈ xs.toList, v.Plain := by
  unfold rangeOf at h
  split at h
  · cases h
    simp
  · split at h
    · cases h
    · split at h
      · cases h
      · cases h
        intro v hv
        obtain ⟨i, rfl⟩ := Array.mem_ofFn.mp (Array.mem_toList_iff.mp hv)
        trivial

/-- A binary operator gives alike answers; a range makes a new pair of arrays. -/
theorem alike_binaryOp (hs : s₁.Alike r s₂) (op : BinaryOp) (h : v.Alike r w) (h' : v'.Alike r w') :
    ∃ r', r.Grows r' ∧ (binaryOp s₁ op v v').2.Alike r' (binaryOp s₂ op w w').2 ∧
      AnswersAlike r' (binaryOp s₁ op v v').1 (binaryOp s₂ op w w').1 := by
  cases op <;> simp only [binaryOp, alike_compareValues hs h h', h.toNumeric hs, h'.toNumeric hs,
    h.text hs, h'.text hs]
  case range =>
    cases hrange : rangeOf (w.toNumeric s₂).toInt64 (w'.toNumeric s₂).toInt64 with
    | error t => exact ⟨r, .refl r, hs, .error t⟩
    | ok xs =>
      refine ⟨_, r.grows_addArray _ _, hs.newArray (.of_plain (plain_rangeOf hrange)), .ok (.array ?_)⟩
      exact .inr ⟨rfl, rfl⟩
  case add | sub | mul | div | mod =>
    exact ⟨r, .refl r, hs, .of_plain fun _ hv => plain_arithmetic hv⟩
  case and | or | other => exact ⟨r, .refl r, hs, .error _⟩
  all_goals exact ⟨r, .refl r, hs, .ok (.plain trivial)⟩

theorem alike_unaryOp (hs : s₁.Alike r s₂) (op : UnaryOp) (h : v.Alike r w) :
    AnswersAlike r (unaryOp s₁ op v) (unaryOp s₂ op w) := by
  cases op with
  | not =>
    simp only [unaryOp, h.truthy hs]
    exact .ok (.plain trivial)
  | neg =>
    simp only [unaryOp, h.toNumeric hs]
    split <;> exact .ok (.plain trivial)
  | other spelling => exact .error _

/-! ## Elements -/

theorem ValuesAlike.getD {vs ws : List Value} (h : ValuesAlike r vs ws) (n : Nat) {d : Value}
    (hd : d.Plain) : (vs[n]?.getD d).Alike r (ws[n]?.getD d) := by
  obtain ⟨hv, hw⟩ | ⟨v, w, hv, hw, hvw⟩ := option_rel_iff.mp (h.getElem? n)
  · rw [hv, hw]
    exact .plain hd
  · rw [hv, hw]
    exact hvw

theorem alike_indexGet (hs : s₁.Alike r s₂) (h : v.Alike r w) (h' : v'.Alike r w') :
    AnswersAlike r (indexGet s₁ v v') (indexGet s₂ w w') := by
  unfold indexGet
  rw [h'.toNumeric hs]
  cases h with
  | @plain v hv =>
    cases v with
    | str t =>
      dsimp only
      split
      · split <;> exact .ok (.plain trivial)
      · exact .ok (.plain trivial)
    | array ref => exact hv.elim
    | _ => exact .error _
  | @array a b hab =>
    simp only [hs.size_eq hab]
    split
    · refine .ok ?_
      have hget := (hs.elements hab).getD
      simp only [Array.getElem?_toList] at hget
      exact hget _ trivial
    · exact .ok (.plain trivial)
  | sub _ => exact .error _
  | tailCalled _ => exact .error _

theorem ValuesAlike.set {vs ws : List Value} (h : ValuesAlike r vs ws) (hv : v.Alike r w) (n : Nat) :
    ValuesAlike r (vs.set n v) (ws.set n w) := by
  induction h generalizing n with
  | nil => exact .nil
  | cons hfirst hrest ih =>
    cases n with
    | zero => exact .cons hv hrest
    | succ n => exact .cons hfirst (ih n)

theorem alike_putElement {xs ys : Array Value} (h : ValuesAlike r xs.toList ys.toList)
    (hv : v.Alike r w) (n : Nat) :
    ValuesAlike r (putElement n v xs).toList (putElement n w ys).toList := by
  have hsize : xs.size = ys.size := h.length_eq
  unfold putElement
  rw [hsize]
  split
  · rw [Array.toList_setIfInBounds, Array.toList_setIfInBounds]
    exact h.set hv n
  · simp only [Array.toList_push, Array.toList_append]
    refine List.rel_append (List.rel_append h (ValuesAlike.of_plain fun u hu => ?_)) (.cons hv .nil)
    rw [Array.toList_replicate] at hu
    rw [List.eq_of_mem_replicate hu]
    trivial

theorem alike_indexSet (hs : s₁.Alike r s₂) {object object' index index' : Value}
    (ho : object.Alike r object') (hi : index.Alike r index') (hv : v.Alike r w) :
    (indexSet s₁ object index v).1 = (indexSet s₂ object' index' w).1 ∧
      (indexSet s₁ object index v).2.Alike r (indexSet s₂ object' index' w).2 := by
  unfold indexSet
  rw [hi.toNumeric hs]
  cases ho with
  | @plain object ho =>
    cases object with
    | array ref => exact ho.elim
    | _ => exact ⟨rfl, hs⟩
  | @array a b hab =>
    simp only [hs.size_eq hab]
    split
    · exact ⟨rfl, hs⟩
    · split
      · exact ⟨rfl, hs⟩
      · exact ⟨rfl, hs.modifyArray hab (alike_putElement (hs.elements hab) hv _)⟩
  | sub _ => exact ⟨rfl, hs⟩
  | tailCalled _ => exact ⟨rfl, hs⟩

/-! ## Builtins -/

structure Effect.Alike (r : Pairing) (e₁ e₂ : Effect) : Prop where
  result : AnswersAlike r e₁.result e₂.result
  store : e₁.store.Alike r e₂.store
  out : e₁.out = e₂.out

theorem alike_writeText (hs : s₁.Alike r s₂) (limit : Option Nat) (out text : String) :
    (writeText limit s₁ out text).Alike r (writeText limit s₂ out text) := by
  unfold writeText
  split
  · exact ⟨.ok (.plain trivial), hs, rfl⟩
  · exact ⟨.error _, hs, rfl⟩

theorem alike_lengthOf (hs : s₁.Alike r s₂) (h : v.Alike r w) : lengthOf s₁ v = lengthOf s₂ w := by
  have htext := h.text hs
  cases h with
  | @plain v hv => cases v <;> first | exact hv.elim | simp only [lengthOf, htext]
  | array hab => exact hs.size_eq hab
  | sub _ => simp only [lengthOf, htext]
  | tailCalled _ => simp only [lengthOf, htext]

theorem alike_joinElements (hs : s₁.Alike r s₂) (h : v.Alike r w) (h' : v'.Alike r w') :
    joinElements s₁ v v' = joinElements s₂ w w' := by
  have htext := h'.text hs
  cases h' with
  | @plain v' hv => cases v' <;> first | exact hv.elim | simp only [joinElements, htext]
  | array hab =>
    simp only [joinElements, h.text hs, (hs.elements hab).map_eq fun _ _ hvw => hvw.text hs]
  | sub _ => simp only [joinElements, htext]
  | tailCalled _ => simp only [joinElements, htext]

theorem alike_pushOnto (hs : s₁.Alike r s₂) {args args' : List Value} (h : ValuesAlike r args args')
    (out : String) : (pushOnto s₁ out args).Alike r (pushOnto s₂ out args') := by
  cases h with
  | nil => exact ⟨.error _, hs, rfl⟩
  | @cons v w vs ws hv hrest =>
    cases hv with
    | @plain v hv =>
      cases v with
      | array ref => exact hv.elim
      | _ => exact ⟨.error _, hs, rfl⟩
    | @array a b hab =>
      have hmodified : (s₁.modifyArray a (· ++ vs.toArray)).Alike r
          (s₂.modifyArray b (· ++ ws.toArray)) := by
        refine hs.modifyArray hab ?_
        simp only [Array.toList_append]
        exact List.rel_append (hs.elements hab) hrest
      refine ⟨?_, hmodified, rfl⟩
      simp only [pushOnto, hmodified.size_eq hab]
      exact .ok (.plain trivial)
    | sub _ => exact ⟨.error _, hs, rfl⟩
    | tailCalled _ => exact ⟨.error _, hs, rfl⟩

theorem alike_apply (hs : s₁.Alike r s₂) {args args' : List Value} (h : ValuesAlike r args args')
    (b : Builtin) (limit : Option Nat) (out : String) :
    (b.apply limit s₁ out args).Alike r (b.apply limit s₂ out args') := by
  have hfirst : (args.head?.getD .absent).Alike r (args'.head?.getD .absent) := by
    rw [List.head?_eq_getElem?, List.head?_eq_getElem?]
    exact h.getD 0 trivial
  have hsecond : ((args.drop 1).head?.getD .absent).Alike r ((args'.drop 1).head?.getD .absent) := by
    rw [List.head?_eq_getElem?, List.head?_eq_getElem?]
    exact ValuesAlike.getD (List.forall₂_drop 1 h) 0 trivial
  have htexts : joinTexts s₁ args = joinTexts s₂ args' := by
    rw [joinTexts, joinTexts, h.map_eq fun _ _ hvw => hvw.text hs]
  cases b <;> simp only [Builtin.apply]
  case print | say =>
    rw [htexts]
    exact alike_writeText hs limit out _
  case len =>
    rw [alike_lengthOf hs hfirst]
    exact ⟨.ok (.plain trivial), hs, rfl⟩
  case push => exact alike_pushOnto hs h out
  case join =>
    rw [alike_joinElements hs hfirst hsecond]
    exact ⟨.ok (.plain trivial), hs, rfl⟩
  case str =>
    rw [hfirst.text hs]
    exact ⟨.ok (.plain trivial), hs, rfl⟩
  case int =>
    rw [hfirst.toNumeric hs]
    exact ⟨.ok (.plain trivial), hs, rfl⟩

end KestrelLang
