import KestrelLang.Proofs.Grammar.Readable

/-! # The parser reads the graded expressions

Whatever the parser reads as an expression is a graded expression with its tokens, so the graded expressions are all
that it reads.

* `Spelled` — the tokens between two streams are those of a graded expression.
* `Derived` — what the acts read from short streams.
* `derived_primary`, `derived_operators`, … — one step, from short streams to longer ones.
* `binary_reads_graded` — the parser of operators reads exactly the graded expressions. -/

namespace KestrelLang.Parser

section Binding

variable {α β : Type} {a : Act α} {f : α → Act β} {s rest : Stream} {v : β}

theorem of_bind (h : (a >>= f) s = .ok (v, rest)) : ∃ x s1, a s = .ok (x, s1) ∧ f x s1 = .ok (v, rest) := by
  cases ha : a s with
  | error e =>
    rw [bind_of_error ha] at h
    cases h
  | ok p =>
    rw [bind_of_ok ha] at h
    exact ⟨p.1, p.2, rfl, h⟩

end Binding

section Taking

variable {s rest : Stream} {t : Token}

theorem of_peek {l : Lexeme} (hl : s.peek = l) (hne : l ≠ .eof) :
    ∃ t ts eof last, s = ⟨t :: ts, eof, last⟩ ∧ t.lexeme = l := by
  obtain ⟨_ | ⟨t, ts⟩, eof, last⟩ := s
  · exact absurd hl.symm hne
  · exact ⟨t, ts, eof, last, rfl, hl⟩

theorem of_expect {wanted : Lexeme} (h : Act.expect wanted s = .ok (t, rest)) :
    t.lexeme = wanted ∧ Took s [t] rest := by
  obtain ⟨_ | ⟨t', ts⟩, eof, last⟩ := s
  · cases h
  · by_cases ht : t'.lexeme = wanted
    · rw [expect_cons ht] at h
      cases h
      exact ⟨ht, rfl, rfl, rfl⟩
    · have hpeek : Stream.peek ⟨t' :: ts, eof, last⟩ ≠ wanted := ht
      rw [Act.expect, Parser.expect, accept_of_ne hpeek] at h
      cases h

theorem of_expectName {role : String} {name : Name} (h : Act.expectName role s = .ok (name, rest)) :
    ∃ t, t.lexeme = .ident name.text ∧ t.span = name.span ∧ Took s [t] rest := by
  obtain ⟨_ | ⟨⟨lexeme, start, stop⟩, ts⟩, eof, last⟩ := s
  · cases h
  · cases lexeme with
    | ident x =>
      cases h
      exact ⟨_, rfl, rfl, rfl, rfl, rfl⟩
    | _ => cases h

end Taking

/-- The tokens between the streams are those of a graded expression of the given kind, and it has the given tree. -/
def Spelled (kind : Written → Prop) (s : Stream) (e : Expr) (rest : Stream) : Prop :=
  ∃ c : Written, c.Graded ∧ kind c ∧ c.tree = e ∧ Took s c.tokens rest

def Stream.Closed (s : Stream) : Prop := s.peek ≠ mark .lparen ∧ s.peek ≠ mark .lbracket

structure Derived (n : Nat) : Prop where
  expr : ∀ {s e rest}, s.size < n → Act.expression s = .ok (e, rest) → Spelled (fun _ => True) s e rest
  binary : ∀ {s e rest} min, s.size < n → Act.binary min s = .ok (e, rest) →
    Spelled (Written.Above min) s e rest ∧ Ends min rest.peek
  operators : ∀ {s0 s e rest} min (c : Written), s.size < n → c.Graded → c.Above min → Took s0 c.tokens s →
    Ends c.level s.peek → Act.operators min (startOf c.tokens) c.tree s = .ok (e, rest) →
    Spelled (Written.Above min) s0 e rest ∧ Ends min rest.peek
  suffixes : ∀ {s0 s e rest} (c : Written), s.size < n → c.Graded → prefixLevel < c.level → Took s0 c.tokens s →
    Act.suffixes (startOf c.tokens) c.tree s = .ok (e, rest) →
    Spelled (prefixLevel < ·.level) s0 e rest ∧ rest.Closed
  exprs : ∀ {s es rest} closing, s.size < n → Act.exprs closing s = .ok (es, rest) →
    ∃ row : Row, row.Graded ∧ row.trees = es ∧ Took s row.tokens rest

section Steps

variable {n : Nat} (hn : Derived n) {s rest : Stream} {e : Expr} {t : Token} {ts : List Token} {eof last : Position}
include hn

omit hn in
theorem took_cons : Took ⟨t :: ts, eof, last⟩ [t] ⟨ts, eof, t.stop⟩ := ⟨rfl, rfl, rfl⟩

omit hn in
theorem Took.size_lt {ts : List Token} (h : Took s ts rest) (hts : ts ≠ []) : rest.size < s.size := by
  have hpos := List.length_pos_iff.mpr hts
  have hsize := h.size
  omega

omit hn in
theorem Took.since {ts : List Token} (h : Took s ts rest) (hts : ts ≠ []) : rest.since (startOf ts) = spanOf ts := by
  rw [Stream.since, h.last]
  exact span_eq hts s.last

omit hn in
theorem derived_closure (ht : t.lexeme = word .subWord) (h : Act.primary ⟨t :: ts, eof, last⟩ = .ok (e, rest)) :
    Spelled (prefixLevel < ·.level) ⟨t :: ts, eof, last⟩ e rest := by
  rw [Act.primary_eq, Act.bind_peek, peek_cons, ht] at h
  dsimp only at h
  rw [Act.bind_token, closureTail_bind] at h
  obtain ⟨⟨params, body⟩, s1, htail, h⟩ := of_bind h
  obtain ⟨span, s2, hspan, h⟩ := of_bind h
  cases hspan
  cases h
  obtain ⟨stretch, htook, hagain⟩ := closureTail_again htail
  have hstretch := hagain [] .zero
  rw [List.append_nil, htook.last] at hstretch
  have hall : Took ⟨t :: ts, eof, last⟩ (t :: stretch) rest := took_cons.trans htook
  refine ⟨.closure t stretch params body, ⟨ht, hstretch⟩, Nat.lt_succ_self _, ?_, hall⟩
  exact congrArg (Expr.closure params body) (hall.since (List.cons_ne_nil t stretch)).symm

theorem derived_parens (hs : ts.length < n) (ht : t.lexeme = mark .lparen)
    (h : Act.primary ⟨t :: ts, eof, last⟩ = .ok (e, rest)) :
    Spelled (prefixLevel < ·.level) ⟨t :: ts, eof, last⟩ e rest := by
  rw [Act.primary_eq, Act.bind_peek, peek_cons, ht] at h
  dsimp only at h
  rw [Act.bind_token] at h
  obtain ⟨e', s1, hinner, h⟩ := of_bind h
  obtain ⟨closing, s2, hclosing, h⟩ := of_bind h
  cases h
  obtain ⟨c, hgraded, -, rfl, htook⟩ := hn.expr (s := ⟨ts, eof, t.stop⟩) hs hinner
  obtain ⟨hmark, htook'⟩ := of_expect hclosing
  exact ⟨.parens t c closing, ⟨ht, hgraded, hmark⟩, Nat.lt_succ_self _, rfl, took_cons.trans (htook.trans htook')⟩

theorem derived_array (hs : ts.length < n) (ht : t.lexeme = mark .lbracket)
    (h : Act.primary ⟨t :: ts, eof, last⟩ = .ok (e, rest)) :
    Spelled (prefixLevel < ·.level) ⟨t :: ts, eof, last⟩ e rest := by
  rw [Act.primary_eq, Act.bind_peek, peek_cons, ht] at h
  dsimp only at h
  rw [Act.bind_token] at h
  obtain ⟨es, s1, helements, h⟩ := of_bind h
  obtain ⟨closing, s2, hclosing, h⟩ := of_bind h
  rw [bind_since] at h
  cases h
  obtain ⟨row, hgraded, rfl, htook⟩ := hn.exprs (s := ⟨ts, eof, t.stop⟩) .rbracket hs helements
  obtain ⟨hmark, htook'⟩ := of_expect hclosing
  have hfirst : Took ⟨t :: ts, eof, last⟩ [t] ⟨ts, eof, t.stop⟩ := took_cons
  have hall := hfirst.trans (htook.trans htook')
  refine ⟨.array t row closing, ⟨ht, hgraded, hmark⟩, Nat.lt_succ_self _, ?_, hall⟩
  exact congrArg (Expr.array row.trees) (hall.since (List.cons_ne_nil t _)).symm

theorem derived_primary (hs : s.size ≤ n) (h : Act.primary s = .ok (e, rest)) :
    Spelled (prefixLevel < ·.level) s e rest := by
  obtain ⟨_ | ⟨⟨lexeme, start, stop⟩, ts⟩, eof, last⟩ := s
  · rw [Act.primary_eq] at h
    cases h
  -- The token is an expression by itself, or opens a closure, parentheses or an array.
  cases hleaf : Token.leaf? ⟨lexeme, start, stop⟩ with
  | some e' =>
    cases (primary_leaf hleaf ts eof last).symm.trans h
    exact ⟨.leaf _ e, hleaf, Nat.lt_succ_self _, rfl, took_cons⟩
  | none =>
    have hread := h
    rw [Act.primary_eq, Act.bind_peek, peek_cons] at hread
    cases lexeme with
    | int digits =>
      have hnone : Number.readInt64? digits = none := Option.map_eq_none_iff.mp hleaf
      dsimp only at hread
      rw [Act.bind_token, Act.intLiteral, Parser.intLiteral] at hread
      simp only [hnone] at hread
      cases hread
    | float digits =>
      have hnone : Number.readFloat? digits = none := Option.map_eq_none_iff.mp hleaf
      dsimp only at hread
      rw [Act.bind_token, Act.floatLiteral, Parser.floatLiteral] at hread
      simp only [hnone] at hread
      cases hread
    | keyword k =>
      cases k with
      | subWord => exact derived_closure rfl h
      | undefWord => cases hleaf
      | _ => cases hread
    | punct p =>
      cases p with
      | lparen => exact derived_parens hn hs rfl h
      | lbracket => exact derived_array hn hs rfl h
      | _ => cases hread
    | string contents | ident name => cases hleaf
    | eof => cases hread

theorem derived_arguments (hs : s.size ≤ n) {es : List Expr} (h : Act.arguments s = .ok (es, rest)) :
    ∃ (opening : Token) (row : Row) (closing : Token), opening.lexeme = mark .lparen ∧ row.Graded ∧
      closing.lexeme = mark .rparen ∧ row.trees = es ∧ Took s (opening :: (row.tokens ++ [closing])) rest := by
  rw [Act.arguments_eq] at h
  obtain ⟨opening, s1, hopening, h⟩ := of_bind h
  obtain ⟨es', s2, helements, h⟩ := of_bind h
  obtain ⟨closing, s3, hclosing, h⟩ := of_bind h
  cases h
  obtain ⟨hmark, htook⟩ := of_expect hopening
  obtain ⟨row, hgraded, hes, htook'⟩ :=
    hn.exprs .rparen (Nat.lt_of_lt_of_le (htook.size_lt (List.cons_ne_nil _ _)) hs) helements
  obtain ⟨hmark', htook''⟩ := of_expect hclosing
  exact ⟨opening, row, closing, hmark, hgraded, hmark', hes, htook.trans (htook'.trans htook'')⟩

theorem derived_suffixes {s0 : Stream} (c : Written) (hs : s.size ≤ n) (hgraded : c.Graded)
    (hlevel : prefixLevel < c.level) (htook : Took s0 c.tokens s)
    (h : Act.suffixes (startOf c.tokens) c.tree s = .ok (e, rest)) :
    Spelled (prefixLevel < ·.level) s0 e rest ∧ rest.Closed := by
  rw [Act.suffixes_eq, Act.bind_peek] at h
  by_cases hparen : s.peek = mark .lparen
  · rw [if_pos hparen] at h
    obtain ⟨es, s1, hargs, h⟩ := of_bind h
    obtain ⟨opening, row, closing, hopening, hrow, hclosing, rfl, htook'⟩ := derived_arguments hn hs hargs
    have hcall : (Written.call c opening row closing).Graded := ⟨hgraded, hlevel, hopening, hrow, hclosing⟩
    have hall : Took s0 (Written.call c opening row closing).tokens s1 := htook.trans htook'
    -- The call starts where its callee does, and so its span is that of what was taken.
    have hstart : startOf c.tokens = startOf (Written.call c opening row closing).tokens :=
      (place_append c.tokens_ne_nil _ _ _).symm
    rw [hstart, bind_since, hall.since (Written.tokens_ne_nil _)] at h
    have hless := Nat.lt_of_lt_of_le (htook'.size_lt (List.cons_ne_nil _ _)) hs
    exact hn.suffixes _ hless hcall (Nat.lt_succ_self _) hall h
  rw [if_neg hparen, Act.bind_peek] at h
  by_cases hbracket : s.peek = mark .lbracket
  · rw [if_pos hbracket] at h
    obtain ⟨opening, ts, eof, last, rfl, hopening⟩ := of_peek hbracket nofun
    rw [Act.bind_token] at h
    obtain ⟨e', s2, hposition, h⟩ := of_bind h
    obtain ⟨closing, s3, hclosing, h⟩ := of_bind h
    obtain ⟨position, hgraded', -, rfl, htook'⟩ := hn.expr (s := ⟨ts, eof, opening.stop⟩) hs hposition
    obtain ⟨hmark, htook''⟩ := of_expect hclosing
    have hstep : Took ⟨opening :: ts, eof, last⟩ (opening :: (position.tokens ++ [closing])) s3 :=
      took_cons.trans (htook'.trans htook'')
    have hindex : (Written.index c opening position closing).Graded := ⟨hgraded, hlevel, hopening, hgraded', hmark⟩
    have hall : Took s0 (Written.index c opening position closing).tokens s3 := htook.trans hstep
    have hstart : startOf c.tokens = startOf (Written.index c opening position closing).tokens :=
      (place_append c.tokens_ne_nil _ _ _).symm
    rw [hstart, bind_since, hall.since (Written.tokens_ne_nil _)] at h
    have hless := Nat.lt_of_lt_of_le (hstep.size_lt (List.cons_ne_nil _ _)) hs
    exact hn.suffixes _ hless hindex (Nat.lt_succ_self _) hall h
  · rw [if_neg hbracket] at h
    cases h
    exact ⟨⟨c, hgraded, hlevel, rfl, htook⟩, hparen, hbracket⟩

omit hn in
theorem Took.startOf {ts : List Token} (h : Took s ts rest) (hts : ts ≠ []) : s.place = startOf ts := by
  rw [← h.place hts [] .zero .zero, List.append_nil]

theorem derived_suffixed (hs : s.size ≤ n) (h : Act.suffixed s = .ok (e, rest)) :
    Spelled (prefixLevel < ·.level) s e rest ∧ rest.Closed := by
  rw [Act.suffixed_eq, Act.bind_place] at h
  obtain ⟨e', s1, hprimary, h⟩ := of_bind h
  obtain ⟨c, hgraded, hlevel, rfl, htook⟩ := derived_primary hn hs hprimary
  rw [htook.startOf c.tokens_ne_nil] at h
  exact hn.suffixes c (Nat.lt_of_lt_of_le (htook.size_lt c.tokens_ne_nil) hs) hgraded hlevel htook h

omit hn in
theorem Written.Above.prefixLevel_le {c : Written} (h : c.Above prefixLevel) : prefixLevel ≤ c.level := by
  cases c with
  | binary op level left sign right => exact Nat.le_of_lt (h.2 level (by simp [Written.spine]))
  | assign | declare | declareAs => exact absurd h.1 (Nat.lt_irrefl 0)
  | unary => exact Nat.le_refl _
  | _ => exact Nat.le_succ _

omit hn in
theorem Written.Above.lt_level {c : Written} {min : Nat} (h : c.Above min) (hmin : min < prefixLevel) :
    min < c.level := by
  cases c with
  | binary op level left sign right => exact h.2 level (by simp [Written.spine])
  | assign | declare | declareAs => exact absurd h.1 (Nat.lt_irrefl 0)
  | unary => exact hmin
  | _ => exact Nat.lt_succ_of_lt hmin

theorem derived_unary (hs : s.size ≤ n) (h : Act.unary s = .ok (e, rest)) :
    Spelled (prefixLevel ≤ ·.level) s e rest ∧ rest.Closed := by
  rw [Act.unary_eq, Act.bind_peek] at h
  cases hsign : prefixOp? s.peek with
  | none =>
    rw [hsign] at h
    obtain ⟨⟨c, hgraded, hlevel, htree, htook⟩, hclosed⟩ := derived_suffixed hn hs h
    exact ⟨⟨c, hgraded, Nat.le_of_lt hlevel, htree, htook⟩, hclosed⟩
  | some op =>
    rw [hsign] at h
    obtain ⟨p, hp, hop⟩ := prefixOp?_eq_some.mp hsign
    obtain ⟨sign, ts, eof, last, rfl, hlexeme⟩ := of_peek hp nofun
    dsimp only at h
    rw [Act.bind_token] at h
    obtain ⟨e', s1, hoperand, h⟩ := of_bind h
    obtain ⟨⟨c, hgraded, habove, rfl, htook⟩, hends⟩ := hn.binary (s := ⟨ts, eof, sign.stop⟩) prefixLevel hs hoperand
    rw [bind_since] at h
    cases h
    have hall : Took ⟨sign :: ts, eof, last⟩ (sign :: c.tokens) rest := took_cons.trans htook
    refine ⟨⟨.unary op sign c, ⟨⟨p, hlexeme, hop⟩, hgraded, habove.prefixLevel_le⟩, Nat.le_refl _, ?_, hall⟩,
      hends.1, hends.2.1⟩
    exact congrArg (Expr.unary op c.tree) (hall.since (List.cons_ne_nil _ _)).symm

omit hn in
theorem ends_of_infixLevel? {min : Nat} (hparen : s.peek ≠ mark .lparen) (hbracket : s.peek ≠ mark .lbracket)
    (h : ∀ level op, infixLevel? s.peek = some (level, op) → level ≤ min) : Ends min s.peek :=
  ⟨hparen, hbracket, fun p level op hp hop => h level op (infixLevel?_eq_some.mpr ⟨p, hp, hop⟩)⟩

theorem derived_operators {s0 : Stream} (min : Nat) (c : Written) (hs : s.size ≤ n) (hgraded : c.Graded)
    (habove : c.Above min) (htook : Took s0 c.tokens s) (hends : Ends c.level s.peek)
    (h : Act.operators min (startOf c.tokens) c.tree s = .ok (e, rest)) :
    Spelled (Written.Above min) s0 e rest ∧ Ends min rest.peek := by
  rw [Act.operators_eq, Act.bind_peek] at h
  cases hsign : infixLevel? s.peek with
  | none =>
    rw [hsign] at h
    cases h
    refine ⟨⟨c, hgraded, habove, rfl, htook⟩, ends_of_infixLevel? hends.1 hends.2.1 fun level op hlevel => ?_⟩
    cases hsign.symm.trans hlevel
  | some found =>
    obtain ⟨level, op⟩ := found
    rw [hsign] at h
    dsimp only at h
    -- An operator that binds no tighter than `min` is left for a caller.
    by_cases hmin : level ≤ min
    · rw [if_pos hmin] at h
      cases h
      refine ⟨⟨c, hgraded, habove, rfl, htook⟩, ends_of_infixLevel? hends.1 hends.2.1 fun level' op' hlevel => ?_⟩
      cases hsign.symm.trans hlevel
      exact hmin
    rw [if_neg hmin] at h
    obtain ⟨p, hp, hop⟩ := infixLevel?_eq_some.mp hsign
    obtain ⟨sign, ts, eof, last, rfl, hlexeme⟩ := of_peek hp nofun
    rw [Act.bind_token] at h
    obtain ⟨e', s2, hright, h⟩ := of_bind h
    obtain ⟨⟨right, hgraded', habove', rfl, htook'⟩, hends'⟩ := hn.binary (s := ⟨ts, eof, sign.stop⟩) level hs hright
    have hstep : Took ⟨sign :: ts, eof, last⟩ (sign :: right.tokens) s2 := took_cons.trans htook'
    have hjoined : (Written.binary op level c sign right).Graded :=
      ⟨⟨p, hlexeme, hop⟩, hgraded, hends.2.2 p level op hp hop, hgraded', habove'.lt_level (level_of_infixTable hop).2⟩
    have hall : Took s0 (Written.binary op level c sign right).tokens s2 := htook.trans hstep
    have hstart : startOf c.tokens = startOf (Written.binary op level c sign right).tokens :=
      (place_append c.tokens_ne_nil _ _ _).symm
    rw [hstart, bind_since, hall.since (Written.tokens_ne_nil _)] at h
    refine hn.operators min _ (Nat.lt_of_lt_of_le (hstep.size_lt (List.cons_ne_nil _ _)) hs) hjoined ?_ hall hends' h
    -- The levels come from the left side, from the operator itself and from the right side.
    refine ⟨(level_of_infixTable hop).1, fun n hn => ?_⟩
    obtain hn | rfl | hn := List.mem_append.mp hn |>.imp_right List.mem_cons.mp
    · exact habove.2 n hn
    · exact Nat.lt_of_not_le hmin
    · exact Nat.lt_trans (Nat.lt_of_not_le hmin) (habove'.2 n hn)

theorem derived_binary (min : Nat) (hs : s.size ≤ n) (h : Act.binary min s = .ok (e, rest)) :
    Spelled (Written.Above min) s e rest ∧ Ends min rest.peek := by
  rw [Act.binary_eq, Act.bind_place] at h
  obtain ⟨e', s1, hunary, h⟩ := of_bind h
  obtain ⟨⟨c, hgraded, hlevel, rfl, htook⟩, hclosed⟩ := derived_unary hn hs hunary
  rw [htook.startOf c.tokens_ne_nil] at h
  exact hn.operators min c (Nat.lt_of_lt_of_le (htook.size_lt c.tokens_ne_nil) hs) hgraded
    (Written.above_of_prefixLevel hgraded hlevel min) htook (ends_of_prefixLevel hlevel hclosed.1 hclosed.2) h

theorem derived_declaration {s0 : Stream} {t : Token} (ht : t.lexeme = word .myWord) (hs : s.size ≤ n)
    (htook : Took s0 [t] s) (h : Act.declaration t.start s = .ok (e, rest)) : Spelled (fun _ => True) s0 e rest := by
  rw [Act.declaration_eq] at h
  obtain ⟨⟨x, span⟩, s1, hname, h⟩ := of_bind h
  obtain ⟨name, hlexeme, hspan, htook'⟩ := of_expectName hname
  have hident : Expr.ident name.lexeme.text name.span = .ident x span := by
    rw [hlexeme, hspan]
    rfl
  rw [Act.bind_peek] at h
  by_cases hassign : s1.peek = mark .assign
  · rw [if_pos hassign] at h
    obtain ⟨sign, ts, eof, last, rfl, hsign⟩ := of_peek hassign nofun
    rw [Act.bind_token] at h
    obtain ⟨e', s2, hvalue, h⟩ := of_bind h
    have hlt : Stream.size ⟨ts, eof, sign.stop⟩ < n :=
      Nat.lt_of_lt_of_le (Nat.lt_trans (Nat.lt_succ_self _) (htook'.size_lt (List.cons_ne_nil _ _))) hs
    obtain ⟨value, hgraded, -, rfl, htook''⟩ := hn.expr hlt hvalue
    rw [bind_since] at h
    cases h
    have hall : Took s0 (Written.declareAs t name sign value).tokens rest :=
      htook.trans (htook'.trans (took_cons.trans htook''))
    refine ⟨.declareAs t name sign value, ⟨ht, ⟨x, hlexeme⟩, hsign, hgraded⟩, trivial, ?_, hall⟩
    rw [Written.tree, hident]
    exact congrArg (Expr.assign _ _ _) (hall.since (Written.tokens_ne_nil _)).symm
  · rw [if_neg hassign, bind_since] at h
    cases h
    have hall : Took s0 (Written.declare t name).tokens rest := htook.trans htook'
    refine ⟨.declare t name, ⟨ht, x, hlexeme⟩, trivial, ?_, hall⟩
    rw [Written.tree, hident]
    exact congrArg (Expr.assign _ _ _) (hall.since (Written.tokens_ne_nil _)).symm

theorem derived_expression (hs : s.size ≤ n) (h : Act.expression s = .ok (e, rest)) :
    Spelled (fun _ => True) s e rest := by
  rw [Act.expression_eq, Act.bind_place, Act.bind_peek] at h
  by_cases hmy : s.peek = word .myWord
  · rw [if_pos hmy] at h
    obtain ⟨t, ts, eof, last, rfl, ht⟩ := of_peek hmy nofun
    rw [Act.bind_token] at h
    exact derived_declaration hn (s := ⟨ts, eof, t.stop⟩) ht (Nat.le_of_succ_le hs) took_cons h
  rw [if_neg hmy] at h
  obtain ⟨e', s1, hleft, h⟩ := of_bind h
  obtain ⟨⟨target, hgraded, habove, rfl, htook⟩, -⟩ := derived_binary hn 0 hs hleft
  rw [Act.bind_peek] at h
  cases hsign : assignOp? s1.peek with
  | none =>
    rw [hsign] at h
    cases h
    exact ⟨target, hgraded, trivial, rfl, htook⟩
  | some op =>
    rw [hsign] at h
    dsimp only at h
    by_cases htarget : isTarget target.tree = true
    · rw [if_pos htarget] at h
      obtain ⟨p, hp, hop⟩ := assignOp?_eq_some.mp hsign
      obtain ⟨sign, ts, eof, last, rfl, hlexeme⟩ := of_peek hp nofun
      rw [Act.bind_token] at h
      obtain ⟨e', s2, hvalue, h⟩ := of_bind h
      have hlt : Stream.size ⟨ts, eof, sign.stop⟩ < n :=
        Nat.lt_of_lt_of_le (Nat.lt_trans (Nat.lt_succ_self _) (htook.size_lt target.tokens_ne_nil)) hs
      obtain ⟨value, hgraded', -, rfl, htook'⟩ := hn.expr hlt hvalue
      have hall : Took s (Written.assign op target sign value).tokens s2 := htook.trans (took_cons.trans htook')
      rw [hall.startOf (Written.tokens_ne_nil _), bind_since, hall.since (Written.tokens_ne_nil _)] at h
      cases h
      exact ⟨.assign op target sign value, ⟨⟨p, hlexeme, hop⟩, hgraded, habove.1, htarget, hgraded'⟩, trivial, rfl,
        hall⟩
    · rw [if_neg htarget] at h
      cases h

theorem derived_exprs (closing : Punct) (hs : s.size ≤ n) {es : List Expr} (h : Act.exprs closing s = .ok (es, rest)) :
    ∃ row : Row, row.Graded ∧ row.trees = es ∧ Took s row.tokens rest := by
  rw [Act.exprs_eq, Act.bind_peek] at h
  by_cases hclosing : s.peek = mark closing
  · rw [if_pos hclosing] at h
    cases h
    exact ⟨.none, trivial, rfl, .refl s⟩
  rw [if_neg hclosing] at h
  obtain ⟨e, s1, hexpression, h⟩ := of_bind h
  obtain ⟨c, hgraded, -, rfl, htook⟩ := derived_expression hn hs hexpression
  rw [Act.bind_peek] at h
  by_cases hcomma : s1.peek = mark .comma
  · rw [if_pos hcomma] at h
    obtain ⟨comma, ts, eof, last, rfl, hlexeme⟩ := of_peek hcomma nofun
    rw [Act.bind_token] at h
    obtain ⟨es', s2, hrest, h⟩ := of_bind h
    cases h
    have hlt : Stream.size ⟨ts, eof, comma.stop⟩ < n :=
      Nat.lt_of_lt_of_le (Nat.lt_trans (Nat.lt_succ_self _) (htook.size_lt c.tokens_ne_nil)) hs
    obtain ⟨row, hrow, rfl, htook'⟩ := hn.exprs closing hlt hrest
    exact ⟨.more c comma row, ⟨hgraded, hlexeme, hrow⟩, rfl, htook.trans (took_cons.trans htook')⟩
  · rw [if_neg hcomma] at h
    cases h
    exact ⟨.one c, hgraded, rfl, htook⟩

end Steps

theorem derived (n : Nat) : Derived n := by
  induction n with
  | zero => constructor <;> intros <;> exact absurd ‹_ < 0› (Nat.not_lt_zero _)
  | succ n ih =>
    exact {
      expr := fun hs => derived_expression ih (Nat.le_of_lt_succ hs)
      binary := fun min hs => derived_binary ih min (Nat.le_of_lt_succ hs)
      operators := fun min c hs => derived_operators ih min c (Nat.le_of_lt_succ hs)
      suffixes := fun c hs => derived_suffixes ih c (Nat.le_of_lt_succ hs)
      exprs := fun closing hs => derived_exprs ih closing (Nat.le_of_lt_succ hs) }

theorem erase_eq_ok {α : Type} {n : Nat} {r : Result α n} {v : α} {rest : Stream} :
    erase r = .ok (v, rest) ↔ ∃ h, r = .ok ⟨v, rest, h⟩ := by
  constructor
  · intro h
    cases r with
    | error e => cases h
    | ok p =>
      cases h
      exact ⟨p.shorter, rfl⟩
  · rintro ⟨h, rfl⟩
    rfl

/-- The parser of operators above a level reads from any place in any token list exactly the graded expressions
    whose operators outside parentheses lie above the level, if what follows does not go on with them: it takes
    their tokens and gives their trees. -/
theorem binary_reads_graded (k min : Nat) (s : Stream) (h : s.size ≤ k) (e : Expr) (rest : Stream) :
    (∃ hshorter, binary (parsers k) min s h = .ok ⟨e, rest, hshorter⟩) ↔
      ∃ c : Written, c.Graded ∧ c.Above min ∧ c.tree = e ∧ Took s c.tokens rest ∧ Ends min rest.peek := by
  rw [← erase_eq_ok, erase_binaryAt]
  constructor
  · intro hread
    obtain ⟨⟨c, hgraded, habove, htree, htook⟩, hends⟩ := (derived (s.size + 1)).binary min (Nat.lt_succ_self _) hread
    exact ⟨c, hgraded, habove, htree, htook, hends⟩
  · rintro ⟨c, hgraded, habove, rfl, htook, hends⟩
    obtain ⟨tokens, eof, last⟩ := s
    obtain ⟨more, eof', last'⟩ := rest
    obtain rfl : tokens = c.tokens ++ more := htook.tokens
    obtain rfl : eof' = eof := htook.eof
    obtain rfl : last' = endOf last c.tokens := htook.last
    rw [peek_mk] at hends
    exact (readable c hgraded).binary.read habove more eof' last hends

/-- The text `a-b-c` is read as `(a-b)-c`. -/
theorem differences_group_left :
    let name (x : String) (column : Int) : Token := ⟨.ident x, ⟨1, column⟩, ⟨1, column + 1⟩⟩
    let minus (column : Int) : Token := ⟨.punct .minus, ⟨1, column⟩, ⟨1, column + 1⟩⟩
    let s : Stream := ⟨[name "a" 1, minus 2, name "b" 3, minus 4, name "c" 5], ⟨1, 6⟩, ⟨1, 1⟩⟩
    let a : Expr := .ident "a" ⟨⟨1, 1⟩, ⟨1, 2⟩⟩
    let b : Expr := .ident "b" ⟨⟨1, 3⟩, ⟨1, 4⟩⟩
    let c : Expr := .ident "c" ⟨⟨1, 5⟩, ⟨1, 6⟩⟩
    let e : Expr := .binary .sub (.binary .sub a b ⟨⟨1, 1⟩, ⟨1, 4⟩⟩) c ⟨⟨1, 1⟩, ⟨1, 6⟩⟩
    s.size ≤ 5 ∧ ∃ w : Written, w.Graded ∧ w.Above 0 ∧ w.tree = e ∧
      Took s w.tokens ⟨[], ⟨1, 6⟩, ⟨1, 6⟩⟩ ∧ Ends 0 .eof := by
  intro name minus s a b c e
  have hsize : s.size ≤ 5 := by decide
  exact ⟨hsize, (binary_reads_graded 5 0 s hsize e ⟨[], ⟨1, 6⟩, ⟨1, 6⟩⟩).mp ⟨by decide, rfl⟩⟩

end KestrelLang.Parser
