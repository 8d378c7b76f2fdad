import KestrelLang.Machine.Builtins

/-! # What trouble can be

* `Trouble.OfOperands` — the trouble of an operator: a type fault, or a demand that no machine can meet.
* `Trouble.OfArguments` — the trouble of a builtin: also a wrong number of arguments, or that no more may be
  written. -/

namespace KestrelLang

def Trouble.OfOperands : Trouble → Prop
  | .fault cause => cause.kind = .type
  | .failed _ => False
  | .abort => True

/-- The trouble of a builtin lies with its arguments, or with the host that reads what is written. -/
def Trouble.OfArguments : Trouble → Prop
  | .fault cause => cause.kind = .type ∨ cause.kind = .arity
  | .failed message => message = outputLimitText
  | .abort => True

section Operators

variable {s : Store} {t : Trouble}

theorem arithmetic_trouble {op : ArithOp} {a b : Numeric} (h : arithmetic op a b = .error t) :
    t.OfOperands := by
  have hmap : ∀ x : Except Trouble Numeric, (∀ u, x = .error u → u.OfOperands) →
      x.map Numeric.toValue = .error t → t.OfOperands := by
    rintro (u | n) hx heq
    · cases heq
      exact hx _ rfl
    · cases heq
  unfold arithmetic at h
  split at h
  · refine hmap _ (fun u hu => ?_) h
    cases op <;> simp only [intArith] at hu <;> (repeat' split at hu) <;> cases hu <;> rfl
  · refine hmap _ (fun u hu => ?_) h
    cases op <;> simp only [floatArith] at hu <;> (repeat' split at hu) <;> cases hu <;> rfl

theorem rangeOf_trouble {low high : Int64} (h : rangeOf low high = .error t) : t.OfOperands := by
  unfold rangeOf at h
  repeat' split at h
  all_goals cases h
  · rfl
  · trivial

theorem binaryOp_trouble {op : BinaryOp} {left right : Value}
    (h : (binaryOp s op left right).1 = .error t) : t.OfOperands := by
  cases op with
  | add | sub | mul | div | mod => exact arithmetic_trouble h
  | range =>
    simp only [binaryOp] at h
    split at h
    · rename_i ht
      cases h
      exact rangeOf_trouble ht
    · cases h
  | and | or | other =>
    cases h
    rfl
  | _ => cases h

theorem unaryOp_trouble {op : UnaryOp} {v : Value} (h : unaryOp s op v = .error t) :
    t.OfOperands := by
  unfold unaryOp at h
  repeat' split at h
  all_goals cases h
  rfl

theorem indexGet_trouble {object index : Value} (h : indexGet s object index = .error t) :
    t.OfOperands := by
  unfold indexGet at h
  dsimp only at h
  repeat' split at h
  all_goals cases h
  rfl

theorem indexSet_trouble {object index v : Value} (h : (indexSet s object index v).1 = .error t) :
    t.OfOperands := by
  unfold indexSet at h
  repeat' split at h
  all_goals cases h
  all_goals rfl

theorem apply_trouble {b : Builtin} {limit : Option Nat} {out : String} {args : List Value}
    (h : (b.apply limit s out args).result = .error t) : t.OfArguments := by
  have hwrite : ∀ text, (writeText limit s out text).result = .error t → t.OfArguments := by
    intro text htext
    unfold writeText at htext
    split at htext
    · cases htext
    · cases htext
      rfl
  cases b with
  | print | say => exact hwrite _ h
  | push =>
    simp only [Builtin.apply, pushOnto] at h
    split at h
    · cases h
      exact .inr rfl
    · cases h
    · cases h
      exact .inl rfl
  | _ => cases h

end Operators

end KestrelLang
