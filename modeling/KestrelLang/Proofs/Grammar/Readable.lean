import KestrelLang.Proofs.Grammar.Written

/-! # Graded expressions are read

Where the tokens of a graded expression stand, the parser reads them, if what follows does not go on with the
expression. Calls, indexes and infix operators lean to the left, so their acts are followed to the place behind a part
of the expression, from where they go on.

* `first` — the token that an expression begins with.
* `Readable` — the acts pass or read the expression.
* `readable_of_primary`, `readable_of_suffixed`, … — what passes the tighter acts passes the looser ones.
* `readable` — all graded expressions are readable. -/

namespace KestrelLang.Parser

section Tokens

variable {ts ts' more : List Token} {eof last last' : Position}

/-! ## Places -/

abbrev startOf (ts : List Token) : Position := Stream.place ⟨ts, .zero, .zero⟩

theorem place_append (h : ts ≠ []) (more : List Token) (eof last : Position) :
    Stream.place ⟨ts ++ more, eof, last⟩ = startOf ts := by
  obtain _ | ⟨t, ts⟩ := ts
  · exact absurd rfl h
  · rfl

theorem endOf_append : endOf last (ts ++ ts') = endOf (endOf last ts) ts' := List.foldl_append

theorem endOf_of_ne_nil (h : ts ≠ []) (last last' : Position) : endOf last ts = endOf last' ts := by
  obtain _ | ⟨t, ts⟩ := ts
  · exact absurd rfl h
  · rfl

theorem span_eq (h : ts ≠ []) (last : Position) : (⟨startOf ts, endOf last ts⟩ : Span) = spanOf ts :=
  congrArg (Span.mk _) (endOf_of_ne_nil h _ _)

theorem Written.tokens_ne_nil (c : Written) : c.tokens ≠ [] := by
  cases c <;> simp [Written.tokens]

end Tokens

/-! ## Where expressions begin and end -/

section Lexemes

variable {c : Written} {l : Lexeme} {min min' : Nat}

theorem Ends.mono (h : Ends min l) (hmin : min ≤ min') : Ends min' l :=
  ⟨h.1, h.2.1, fun p level op hl hop => Nat.le_trans (h.2.2 p level op hl hop) hmin⟩

theorem ends_of_prefixLevel (h : prefixLevel ≤ min) (hparen : l ≠ mark .lparen) (hbracket : l ≠ mark .lbracket) :
    Ends min l :=
  ⟨hparen, hbracket, fun _ _ _ _ hop => Nat.le_trans (Nat.le_of_lt (level_of_infixTable hop).2) h⟩

theorem Inert.ends (h : Inert l) (min : Nat) : Ends min l := by
  refine ⟨h.2.2.1, h.2.2.2, fun p level op hl hop => ?_⟩
  cases h.1.symm.trans (infixLevel?_eq_some.mpr ⟨p, hl, hop⟩)

theorem level_le_spine : (c : Written) → c.Graded → ∀ level ∈ c.spine, c.level ≤ level
  | .binary _ level left _ right, ⟨_, hleft, hlevel, hright, hlevel'⟩ => by
    intro n hn
    obtain hn | hn | hn := List.mem_append.mp hn |>.imp_right List.mem_cons.mp
    · exact Nat.le_trans hlevel (level_le_spine left hleft n hn)
    · exact Nat.le_of_eq hn.symm
    · exact Nat.le_trans (Nat.le_of_lt hlevel') (level_le_spine right hright n hn)
  | .leaf .., _ | .closure .., _ | .array .., _ | .parens .., _ | .call .., _ | .index .., _ | .unary .., _
  | .assign .., _ | .declare .., _ | .declareAs .., _ => nofun

structure First (level : Nat) (l : Lexeme) : Prop where
  rparen : l ≠ mark .rparen
  rbracket : l ≠ mark .rbracket
  my : 0 < level → l ≠ word .myWord
  sign : prefixLevel < level → prefixOp? l = none

theorem first_cons {level : Nat} {t : Token} {ts : List Token} (ht : t.lexeme = l) (h : First level l) :
    First level (upcoming (t :: ts)) := by
  subst ht
  exact h

theorem first_append {ts more : List Token} {level level' : Nat} (hts : ts ≠ []) (h : First level (upcoming ts))
    (hpos : 0 < level) (hlevel : prefixLevel < level' → prefixLevel < level) :
    First level' (upcoming (ts ++ more)) := by
  rw [upcoming_append hts]
  exact ⟨h.rparen, h.rbracket, fun _ => h.my hpos, fun hlevel' => h.sign (hlevel hlevel')⟩

theorem first_leaf {t : Token} {e : Expr} (h : Token.leaf? t = some e) : First (prefixLevel + 1) t.lexeme := by
  unfold Token.leaf? at h
  cases hlexeme : t.lexeme with
  | keyword k =>
    rw [hlexeme] at h
    cases k <;> cases h
    exact ⟨nofun, nofun, nofun, fun _ => rfl⟩
  | punct p =>
    rw [hlexeme] at h
    cases h
  | _ => exact ⟨nofun, nofun, nofun, fun _ => rfl⟩

theorem first_sign {p : Punct} {op : UnaryOp} (h : (p, op) ∈ prefixTable) : First prefixLevel (.punct p) := by
  refine ⟨?_, ?_, nofun, fun hlevel => absurd hlevel (Nat.lt_irrefl _)⟩ <;> rintro ⟨⟩ <;> simp [prefixTable] at h

theorem first : (c : Written) → c.Graded → First c.level (upcoming c.tokens)
  | .leaf .., h => first_leaf h
  | .closure .., h => first_cons h.1 ⟨nofun, nofun, nofun, fun _ => rfl⟩
  | .array .., h => first_cons h.1 ⟨nofun, nofun, nofun, fun _ => rfl⟩
  | .parens .., h => first_cons h.1 ⟨nofun, nofun, nofun, fun _ => rfl⟩
  | .call callee .., ⟨hcallee, hlevel, _⟩ =>
    first_append callee.tokens_ne_nil (first callee hcallee) (Nat.zero_lt_of_lt hlevel) fun _ => hlevel
  | .index object .., ⟨hobject, hlevel, _⟩ =>
    first_append object.tokens_ne_nil (first object hobject) (Nat.zero_lt_of_lt hlevel) fun _ => hlevel
  | .unary .., ⟨⟨_, hp, hop⟩, _⟩ => first_cons hp (first_sign hop)
  | .binary _ _ left .., ⟨⟨_, _, hop⟩, hleft, hlevel, _⟩ =>
    have htable := level_of_infixTable hop
    first_append left.tokens_ne_nil (first left hleft) (Nat.lt_of_lt_of_le htable.1 hlevel) fun h =>
      absurd htable.2 (Nat.lt_asymm h)
  | .assign _ target .., ⟨_, htarget, hlevel, _⟩ =>
    first_append target.tokens_ne_nil (first target htarget) hlevel nofun
  | .declare .., h => first_cons h.1 ⟨nofun, nofun, nofun, nofun⟩
  | .declareAs .., h => first_cons h.1 ⟨nofun, nofun, nofun, nofun⟩

end Lexemes

/-! ## Reading -/

section Reading

variable {c : Written} {ts more : List Token} {t : Token} {eof last : Position} {s : Stream} {min : Nat}

theorem expect_cons {wanted : Lexeme} (h : t.lexeme = wanted) (ts : List Token) (eof last : Position) :
    Act.expect wanted ⟨t :: ts, eof, last⟩ = .ok (t, ⟨ts, eof, t.stop⟩) := by
  subst h
  exact Act.expect_cons t ts eof last

theorem expectName_cons {x role : String} (h : t.lexeme = .ident x) (ts : List Token) (eof last : Position) :
    Act.expectName role ⟨t :: ts, eof, last⟩ = .ok (⟨x, t.span⟩, ⟨ts, eof, t.stop⟩) := by
  obtain ⟨_, start, stop⟩ := t
  subst h
  rfl

theorem operators_of_ends (h : Ends min s.peek) (start : Position) (e : Expr) :
    Act.operators min start e s = .ok (e, s) := by
  rw [Act.operators_eq, Act.bind_peek]
  cases hlevel : infixLevel? s.peek with
  | none => rfl
  | some found =>
    obtain ⟨p, hp, hop⟩ := infixLevel?_eq_some.mp hlevel
    dsimp only
    rw [if_pos (h.2.2 p found.1 found.2 hp hop)]
    rfl

theorem suffixes_of_other (hparen : s.peek ≠ mark .lparen) (hbracket : s.peek ≠ mark .lbracket) (start : Position)
    (e : Expr) : Act.suffixes start e s = .ok (e, s) := by
  rw [Act.suffixes_eq, Act.bind_peek, if_neg hparen, Act.bind_peek, if_neg hbracket]
  rfl

/-- The act for calls and indexes goes on behind the expression. -/
def PassedBySuffixed (c : Written) : Prop := ∀ more eof last, Act.suffixed ⟨c.tokens ++ more, eof, last⟩ =
  Act.suffixes (startOf c.tokens) c.tree ⟨more, eof, endOf last c.tokens⟩

/-- The act for infix operators goes on behind the expression, if that ends there. -/
def PassedByBinary (c : Written) : Prop := ∀ min more eof last, c.Above min → Ends c.level (upcoming more) →
  Act.binary min ⟨c.tokens ++ more, eof, last⟩ =
    Act.operators min (startOf c.tokens) c.tree ⟨more, eof, endOf last c.tokens⟩

structure Readable (c : Written) : Prop where
  suffixed : prefixLevel < c.level → PassedBySuffixed c
  binary : PassedByBinary c
  expression : ∀ more eof last, Inert (upcoming more) →
    Act.expression ⟨c.tokens ++ more, eof, last⟩ = .ok (c.tree, ⟨more, eof, endOf last c.tokens⟩)

/-- What follows an expression above `min` and ends it at that level ends it at its own. -/
theorem Written.Above.ends (h : c.Above min) {l : Lexeme} (hl : Ends min l) : Ends c.level l := by
  cases c with
  | binary op level left sign right =>
    have hlevel : level ∈ (Written.binary op level left sign right).spine := by simp [Written.spine]
    exact hl.mono (Nat.le_of_lt (h.2 level hlevel))
  | assign | declare | declareAs => exact absurd h.1 (Nat.lt_irrefl 0)
  | unary => exact ends_of_prefixLevel (Nat.le_refl _) hl.1 hl.2.1
  | _ => exact ends_of_prefixLevel (Nat.le_succ _) hl.1 hl.2.1

theorem PassedByBinary.read (hc : PassedByBinary c) (habove : c.Above min) (more : List Token) (eof last : Position)
    (hmore : Ends min (upcoming more)) :
    Act.binary min ⟨c.tokens ++ more, eof, last⟩ = .ok (c.tree, ⟨more, eof, endOf last c.tokens⟩) := by
  rw [hc min more eof last habove (habove.ends hmore)]
  refine operators_of_ends ?_ _ _
  rwa [peek_mk]

theorem readable_of_binary (hgraded : c.Graded) (hpos : 0 < c.level)
    (hsuffixed : prefixLevel < c.level → PassedBySuffixed c) (hbinary : PassedByBinary c) : Readable c where
  suffixed := hsuffixed
  binary := hbinary
  expression more eof last hmore := by
    have habove : c.Above 0 := by
      refine ⟨hpos, fun level hlevel => ?_⟩
      exact Nat.lt_of_lt_of_le hpos (level_le_spine c hgraded level hlevel)
    have hmy : Stream.peek ⟨c.tokens ++ more, eof, last⟩ ≠ word .myWord := by
      rw [peek_mk, upcoming_append c.tokens_ne_nil]
      exact (first c hgraded).my hpos
    rw [Act.expression_eq, Act.bind_place, Act.bind_peek, if_neg hmy,
      bind_of_ok (hbinary.read habove more eof last (hmore.ends 0)), Act.bind_peek, peek_mk, hmore.2.1]
    rfl

theorem readable_of_unary (hgraded : c.Graded) (hlevel : prefixLevel ≤ c.level)
    (hsuffixed : prefixLevel < c.level → PassedBySuffixed c)
    (hunary : ∀ more eof last, upcoming more ≠ mark .lparen → upcoming more ≠ mark .lbracket →
      Act.unary ⟨c.tokens ++ more, eof, last⟩ = .ok (c.tree, ⟨more, eof, endOf last c.tokens⟩)) : Readable c := by
  refine readable_of_binary hgraded (Nat.lt_of_lt_of_le (by decide) hlevel) hsuffixed ?_
  intro min more eof last habove hmore
  rw [Act.binary_eq, Act.bind_place, bind_of_ok (hunary more eof last hmore.1 hmore.2.1), place_append c.tokens_ne_nil]

/-- What is no operator is readable if the act for calls and indexes reads it. -/
theorem readable_of_suffixed (hgraded : c.Graded) (hlevel : prefixLevel < c.level) (hsuffixed : PassedBySuffixed c) :
    Readable c := by
  refine readable_of_unary hgraded (Nat.le_of_lt hlevel) (fun _ => hsuffixed) fun more eof last hparen hbracket => ?_
  have hsign : prefixOp? (Stream.peek ⟨c.tokens ++ more, eof, last⟩) = none := by
    rw [peek_mk, upcoming_append c.tokens_ne_nil]
    exact (first c hgraded).sign hlevel
  rw [Act.unary_eq, Act.bind_peek, hsign]
  dsimp only
  rw [hsuffixed]
  exact suffixes_of_other (by rwa [peek_mk]) (by rwa [peek_mk]) _ _

/-- A literal, a name or something in brackets is readable if the act for them reads it. -/
theorem readable_of_primary (hgraded : c.Graded) (hlevel : prefixLevel < c.level)
    (hprimary : ∀ more eof last,
      Act.primary ⟨c.tokens ++ more, eof, last⟩ = .ok (c.tree, ⟨more, eof, endOf last c.tokens⟩)) : Readable c := by
  refine readable_of_suffixed hgraded hlevel fun more eof last => ?_
  rw [Act.suffixed_eq, Act.bind_place, bind_of_ok (hprimary more eof last), place_append c.tokens_ne_nil]

/-! One step, for each kind of expression. -/

/-- The parser reads the tokens of the list wherever they stand before a closing mark. -/
def Row.Readable (row : Row) : Prop :=
  ∀ closing more eof last, closing = .rparen ∨ closing = .rbracket → upcoming more = mark closing →
    Act.exprs closing ⟨row.tokens ++ more, eof, last⟩ = .ok (row.trees, ⟨more, eof, endOf last row.tokens⟩)

theorem peek_cons : Stream.peek ⟨t :: ts, eof, last⟩ = t.lexeme := rfl

theorem primary_leaf {e : Expr} (h : Token.leaf? t = some e) (ts : List Token) (eof last : Position) :
    Act.primary ⟨t :: ts, eof, last⟩ = .ok (e, ⟨ts, eof, t.stop⟩) := by
  obtain ⟨lexeme, start, stop⟩ := t
  rw [Act.primary_eq, Act.bind_peek, peek_cons]
  cases lexeme with
  | int digits =>
    obtain ⟨n, hn, rfl⟩ := Option.map_eq_some_iff.mp h
    dsimp only
    rw [Act.bind_token, Act.intLiteral, Parser.intLiteral]
    simp only [hn]
    rfl
  | float digits =>
    obtain ⟨x, hx, rfl⟩ := Option.map_eq_some_iff.mp h
    dsimp only
    rw [Act.bind_token, Act.floatLiteral, Parser.floatLiteral]
    simp only [hx]
    rfl
  | keyword k =>
    cases k <;> cases h
    rfl
  | string contents | ident name =>
    cases h
    rfl
  | eof | punct p => cases h

theorem closureTail_again {v : List Name × Block} {rest : Stream} (h : Act.closureTail s = .ok (v, rest)) :
    ∃ ts, Took s ts rest ∧ ∀ more eof, Act.closureTail ⟨ts ++ more, eof, s.last⟩ = .ok (v, ⟨more, eof, rest.last⟩) := by
  have hsteady : Steady [.mark .lbrace, .mark .rbrace] anything s Act.closureTail := by
    have hbelow := below s.size
    refine (steady_params hbelow (Nat.le_succ _)).bindOptional (Nat.le_succ _) nofun fun params s1 h1 => ?_
    exact (steady_block hbelow h1).bind hbelow.pos h1 leads_anything fun body s2 h2 => steady_pure _
  obtain ⟨ts, htook, -, hagain⟩ := hsteady.again h
  exact ⟨ts, htook, fun more eof => hagain more eof (.inr trivial)⟩

theorem closureTail_bind {α : Type} (f : List Name → Block → Act α) :
    (do let params ← Act.params; let body ← Act.block; f params body) = (do let p ← Act.closureTail; f p.1 p.2) := by
  simp only [Act.closureTail, bind_assoc, pure_bind]

theorem bind_since {α : Type} (start : Position) (f : Span → Act α) :
    (Act.since start >>= f) s = f (s.since start) s := rfl

theorem since_spanOf (h : ts ≠ []) : Stream.since ⟨more, eof, endOf last ts⟩ (startOf ts) = spanOf ts := span_eq h last

theorem endOf_concat (ts : List Token) (t : Token) (last : Position) : endOf last (ts ++ [t]) = t.stop := endOf_append

theorem readable_closure {stretch : List Token} {params : List Name} {body : Block}
    (hgraded : (Written.closure t stretch params body).Graded) : Readable (.closure t stretch params body) := by
  obtain ⟨ht, htail⟩ := id hgraded
  refine readable_of_primary hgraded (Nat.lt_succ_self _) fun more eof last => ?_
  obtain ⟨ts, htook, hagain⟩ := closureTail_again htail
  obtain rfl : stretch = ts := htook.tokens.trans (List.append_nil ts)
  rw [Written.tokens, List.cons_append, Act.primary_eq, Act.bind_peek, peek_cons, ht]
  dsimp only
  rw [Act.bind_token, closureTail_bind, bind_of_ok (hagain more eof)]
  rfl

theorem readable_array {elements : Row} {opening closing : Token}
    (hgraded : (Written.array opening elements closing).Graded) (helements : elements.Readable) :
    Readable (.array opening elements closing) := by
  obtain ⟨hopening, -, hclosing⟩ := id hgraded
  refine readable_of_primary hgraded (Nat.lt_succ_self _) fun more eof last => ?_
  have hread := helements .rbracket (closing :: more) eof opening.stop (.inr rfl) hclosing
  have hstop : closing.stop = endOf last (opening :: (elements.tokens ++ [closing])) := (endOf_concat _ _ _).symm
  rw [Written.tokens, List.cons_append, List.append_assoc, List.singleton_append, Act.primary_eq, Act.bind_peek,
    peek_cons, hopening]
  dsimp only
  rw [Act.bind_token, bind_of_ok hread, bind_of_ok (expect_cons hclosing more eof _), hstop]
  rfl

theorem readable_parens {inner : Written} {opening closing : Token}
    (hgraded : (Written.parens opening inner closing).Graded) (hinner : Readable inner) :
    Readable (.parens opening inner closing) := by
  obtain ⟨hopening, -, hclosing⟩ := id hgraded
  refine readable_of_primary hgraded (Nat.lt_succ_self _) fun more eof last => ?_
  have hmore : Inert closing.lexeme := by
    rw [hclosing]
    exact inert_rparen
  have hread := hinner.expression (closing :: more) eof opening.stop hmore
  have hstop : closing.stop = endOf last (opening :: (inner.tokens ++ [closing])) := (endOf_concat _ _ _).symm
  rw [Written.tokens, List.cons_append, List.append_assoc, List.singleton_append, Act.primary_eq, Act.bind_peek,
    peek_cons, hopening]
  dsimp only
  rw [Act.bind_token, bind_of_ok hread, bind_of_ok (expect_cons hclosing more eof _), hstop]
  rfl

theorem readable_call {callee : Written} {args : Row} {opening closing : Token}
    (hgraded : (Written.call callee opening args closing).Graded) (hcallee : Readable callee) (hargs : args.Readable) :
    Readable (.call callee opening args closing) := by
  obtain ⟨-, hlevel, hopening, -, hclosing⟩ := id hgraded
  refine readable_of_suffixed hgraded (Nat.lt_succ_self _) fun more eof last => ?_
  have hread := hargs .rparen (closing :: more) eof opening.stop (.inl rfl) hclosing
  have harguments : Act.arguments ⟨opening :: (args.tokens ++ closing :: more), eof, endOf last callee.tokens⟩ =
      .ok (args.trees, ⟨more, eof, closing.stop⟩) := by
    rw [Act.arguments_eq, bind_of_ok (expect_cons hopening _ eof _), bind_of_ok hread,
      bind_of_ok (expect_cons hclosing more eof _)]
    rfl
  have hstart : startOf callee.tokens = startOf (Written.call callee opening args closing).tokens :=
    (place_append callee.tokens_ne_nil _ _ _).symm
  have hstop : closing.stop = endOf last (Written.call callee opening args closing).tokens := by
    rw [Written.tokens, endOf_append]
    exact (endOf_concat _ _ _).symm
  have htokens : (Written.call callee opening args closing).tokens ++ more =
      callee.tokens ++ opening :: (args.tokens ++ closing :: more) := by simp [Written.tokens]
  rw [htokens, hcallee.suffixed hlevel, Act.suffixes_eq, Act.bind_peek, peek_cons, if_pos hopening,
    bind_of_ok harguments, hstart, hstop, bind_since, since_spanOf (Written.tokens_ne_nil _)]
  rfl

theorem readable_index {object position : Written} {opening closing : Token}
    (hgraded : (Written.index object opening position closing).Graded) (hobject : Readable object)
    (hposition : Readable position) : Readable (.index object opening position closing) := by
  obtain ⟨-, hlevel, hopening, -, hclosing⟩ := id hgraded
  refine readable_of_suffixed hgraded (Nat.lt_succ_self _) fun more eof last => ?_
  have hother : opening.lexeme ≠ mark .lparen := by
    rw [hopening]
    decide
  have hmore : Inert closing.lexeme := by
    rw [hclosing]
    exact inert_rbracket
  have hread := hposition.expression (closing :: more) eof opening.stop hmore
  have hstart : startOf object.tokens = startOf (Written.index object opening position closing).tokens :=
    (place_append object.tokens_ne_nil _ _ _).symm
  have hstop : closing.stop = endOf last (Written.index object opening position closing).tokens := by
    rw [Written.tokens, endOf_append]
    exact (endOf_concat _ _ _).symm
  have htokens : (Written.index object opening position closing).tokens ++ more =
      object.tokens ++ opening :: (position.tokens ++ closing :: more) := by simp [Written.tokens]
  rw [htokens, hobject.suffixed hlevel, Act.suffixes_eq, Act.bind_peek, peek_cons, if_neg hother, Act.bind_peek,
    peek_cons, if_pos hopening, Act.bind_token, bind_of_ok hread, bind_of_ok (expect_cons hclosing more eof _),
    hstart, hstop, bind_since, since_spanOf (Written.tokens_ne_nil _)]
  rfl

theorem Written.above_of_lt {level : Nat} (hgraded : c.Graded) (h : level < c.level) : c.Above level :=
  ⟨Nat.zero_lt_of_lt h, fun n hn => Nat.lt_of_lt_of_le h (level_le_spine c hgraded n hn)⟩

/-- An operand of a prefix operator has no infix operator outside parentheses. -/
theorem Written.above_of_prefixLevel (hgraded : c.Graded) (h : prefixLevel ≤ c.level) (min : Nat) : c.Above min := by
  refine ⟨Nat.lt_of_lt_of_le (by decide) h, fun n hn => ?_⟩
  cases c with
  | binary op level left sign right =>
    obtain ⟨⟨p, -, hop⟩, -⟩ := hgraded
    exact absurd (level_of_infixTable hop).2 (Nat.not_lt.mpr h)
  | _ => cases hn

theorem readable_unary {op : UnaryOp} {sign : Token} {operand : Written}
    (hgraded : (Written.unary op sign operand).Graded) (hoperand : Readable operand) :
    Readable (.unary op sign operand) := by
  obtain ⟨⟨p, hp, hop⟩, hgraded', hlevel⟩ := id hgraded
  refine readable_of_unary hgraded (Nat.le_refl _) (fun h => absurd h (Nat.lt_irrefl _)) ?_
  intro more eof last hparen hbracket
  have hsign : prefixOp? sign.lexeme = some op := prefixOp?_eq_some.mpr ⟨p, hp, hop⟩
  have hread := hoperand.binary.read (Written.above_of_prefixLevel hgraded' hlevel prefixLevel) more eof sign.stop
    (ends_of_prefixLevel (Nat.le_refl _) hparen hbracket)
  rw [Written.tokens, List.cons_append, Act.unary_eq, Act.bind_peek, peek_cons, hsign]
  dsimp only
  rw [Act.bind_token, bind_of_ok hread]
  rfl

theorem readable_binary {op : BinaryOp} {level : Nat} {left right : Written} {sign : Token}
    (hgraded : (Written.binary op level left sign right).Graded) (hleft : Readable left) (hright : Readable right) :
    Readable (.binary op level left sign right) := by
  obtain ⟨⟨p, hp, hop⟩, hgradedLeft, hlevelLeft, hgradedRight, hlevelRight⟩ := id hgraded
  have htable := level_of_infixTable hop
  refine readable_of_binary hgraded htable.1 (fun h => absurd htable.2 (Nat.lt_asymm h)) ?_
  intro min more eof last habove hmore
  have hmin : min < level := habove.2 level (by simp [Written.spine])
  have hsign : infixLevel? sign.lexeme = some (level, op) := infixLevel?_eq_some.mpr ⟨p, hp, hop⟩
  have habove' : left.Above min := by
    refine ⟨Nat.lt_of_lt_of_le htable.1 hlevelLeft, fun n hn => habove.2 n ?_⟩
    simp [Written.spine, hn]
  -- The operator ends the left side: it does not continue it and binds no tighter than what is there.
  have hends : Ends left.level sign.lexeme := by
    rw [hp]
    refine ⟨?_, ?_, fun p' level' op' hp' hop' => ?_⟩
    · rintro ⟨⟩
      simp [infixTable] at hop
    · rintro ⟨⟩
      simp [infixTable] at hop
    · have hsame := hsign.symm.trans (infixLevel?_eq_some.mpr ⟨p', hp.trans hp', hop'⟩)
      cases hsame
      exact hlevelLeft
  have hread := hright.binary.read (Written.above_of_lt hgradedRight hlevelRight) more eof sign.stop hmore
  have hstart : startOf left.tokens = startOf (Written.binary op level left sign right).tokens :=
    (place_append left.tokens_ne_nil _ _ _).symm
  have hstop : endOf sign.stop right.tokens = endOf last (Written.binary op level left sign right).tokens := by
    rw [Written.tokens, endOf_append]
    rfl
  have htokens : (Written.binary op level left sign right).tokens ++ more =
      left.tokens ++ sign :: (right.tokens ++ more) := by simp [Written.tokens]
  rw [htokens, hleft.binary min (sign :: (right.tokens ++ more)) eof last habove' hends, Act.operators_eq,
    Act.bind_peek, peek_cons, hsign]
  dsimp only
  rw [if_neg (Nat.not_le.mpr hmin), Act.bind_token, bind_of_ok hread, hstart, hstop, bind_since,
    since_spanOf (Written.tokens_ne_nil _)]
  rfl

theorem readable_of_expression (hlevel : c.level = 0)
    (hexpression : ∀ more eof last, Inert (upcoming more) →
      Act.expression ⟨c.tokens ++ more, eof, last⟩ = .ok (c.tree, ⟨more, eof, endOf last c.tokens⟩)) : Readable c where
  suffixed h := by
    rw [hlevel] at h
    cases h
  binary min more eof last habove := by
    have hpos := habove.1
    rw [hlevel] at hpos
    cases hpos
  expression := hexpression

theorem readable_assign {op : AssignOp} {target value : Written} {sign : Token}
    (hgraded : (Written.assign op target sign value).Graded) (htarget : Readable target) (hvalue : Readable value) :
    Readable (.assign op target sign value) := by
  obtain ⟨⟨p, hp, hop⟩, hgraded', hlevel, htree, -⟩ := hgraded
  refine readable_of_expression rfl fun more eof last hmore => ?_
  have hsign : assignOp? sign.lexeme = some op := assignOp?_eq_some.mpr ⟨p, hp, hop⟩
  -- A sign of an assignment is no infix operator.
  have hends : Ends 0 sign.lexeme := by
    rw [hp]
    refine ⟨?_, ?_, fun p' level' op' hp' hop' => ?_⟩
    · rintro ⟨⟩
      simp [assignTable] at hop
    · rintro ⟨⟩
      simp [assignTable] at hop
    · cases hp'
      cases p <;> simp [assignTable, infixTable] at hop hop'
  have hmy : Stream.peek ⟨target.tokens ++ sign :: (value.tokens ++ more), eof, last⟩ ≠ word .myWord := by
    rw [peek_mk, upcoming_append target.tokens_ne_nil]
    exact (first target hgraded').my hlevel
  have habove := Written.above_of_lt hgraded' hlevel
  have hleft := htarget.binary.read habove (sign :: (value.tokens ++ more)) eof last hends
  have hright := hvalue.expression more eof sign.stop hmore
  have hstart : Stream.place ⟨target.tokens ++ sign :: (value.tokens ++ more), eof, last⟩ =
      startOf (Written.assign op target sign value).tokens := by
    rw [place_append target.tokens_ne_nil]
    exact (place_append target.tokens_ne_nil _ _ _).symm
  have hstop : endOf sign.stop value.tokens = endOf last (Written.assign op target sign value).tokens := by
    rw [Written.tokens, endOf_append]
    rfl
  have htokens : (Written.assign op target sign value).tokens ++ more =
      target.tokens ++ sign :: (value.tokens ++ more) := by simp [Written.tokens]
  rw [htokens, Act.expression_eq, Act.bind_place, Act.bind_peek, if_neg hmy, bind_of_ok hleft, Act.bind_peek, peek_cons,
    hsign]
  dsimp only
  rw [if_pos htree, Act.bind_token, bind_of_ok hright, hstart, hstop, bind_since,
    since_spanOf (Written.tokens_ne_nil _)]
  rfl

theorem readable_declare {name : Token} (hgraded : (Written.declare t name).Graded) : Readable (.declare t name) := by
  obtain ⟨ht, x, hname⟩ := hgraded
  refine readable_of_expression rfl fun more eof last hmore => ?_
  have hassign : upcoming more ≠ mark .assign := by
    intro h
    cases hmore.2.1.symm.trans (congrArg assignOp? h)
  rw [Written.tokens, Act.expression_eq, Act.bind_place, List.cons_append, Act.bind_peek, peek_cons, if_pos ht,
    Act.bind_token, Act.declaration_eq, List.cons_append, bind_of_ok (expectName_cons hname _ eof _), List.nil_append,
    Act.bind_peek, peek_mk, if_neg hassign, Written.tree, hname]
  rfl

theorem readable_declareAs {name sign : Token} {value : Written}
    (hgraded : (Written.declareAs t name sign value).Graded) (hvalue : Readable value) :
    Readable (.declareAs t name sign value) := by
  obtain ⟨ht, ⟨x, hname⟩, hsign, -⟩ := hgraded
  refine readable_of_expression rfl fun more eof last hmore => ?_
  have hread := hvalue.expression more eof sign.stop hmore
  rw [Written.tokens, Act.expression_eq, Act.bind_place, List.cons_append, Act.bind_peek, peek_cons, if_pos ht,
    Act.bind_token, Act.declaration_eq, List.cons_append, bind_of_ok (expectName_cons hname _ eof _), List.cons_append,
    Act.bind_peek, peek_cons, if_pos hsign, Act.bind_token, bind_of_ok hread, Written.tree, hname]
  rfl

theorem closing_inert {closing : Punct} (h : closing = .rparen ∨ closing = .rbracket) : Inert (mark closing) := by
  obtain rfl | rfl := h <;> decide

theorem closing_ne_comma {closing : Punct} (h : closing = .rparen ∨ closing = .rbracket) :
    mark closing ≠ mark .comma := by
  obtain rfl | rfl := h <;> decide

theorem first_ne_closing {closing : Punct} (h : closing = .rparen ∨ closing = .rbracket) (hgraded : c.Graded) :
    upcoming c.tokens ≠ mark closing := by
  obtain rfl | rfl := h
  · exact (first c hgraded).rparen
  · exact (first c hgraded).rbracket

theorem readable_one (hgraded : c.Graded) (hc : Readable c) : (Row.one c).Readable := by
  intro closing more eof last hclosing hmore
  have hfirst : Stream.peek ⟨c.tokens ++ more, eof, last⟩ ≠ mark closing := by
    rw [peek_mk, upcoming_append c.tokens_ne_nil]
    exact first_ne_closing hclosing hgraded
  have hread := hc.expression more eof last (hmore ▸ closing_inert hclosing)
  rw [Row.tokens, Act.exprs_eq, Act.bind_peek, if_neg hfirst, bind_of_ok hread, Act.bind_peek, peek_mk, hmore,
    if_neg (closing_ne_comma hclosing)]
  rfl

theorem readable_more {comma : Token} {rest : Row} (hgraded : (Row.more c comma rest).Graded) (hc : Readable c)
    (hrest : rest.Readable) : (Row.more c comma rest).Readable := by
  obtain ⟨hgraded', hcomma, -⟩ := hgraded
  intro closing more eof last hclosing hmore
  have hfirst : Stream.peek ⟨c.tokens ++ comma :: (rest.tokens ++ more), eof, last⟩ ≠ mark closing := by
    rw [peek_mk, upcoming_append c.tokens_ne_nil]
    exact first_ne_closing hclosing hgraded'
  have hinert : Inert comma.lexeme := by
    rw [hcomma]
    decide
  have hread := hc.expression (comma :: (rest.tokens ++ more)) eof last hinert
  have htokens : (Row.more c comma rest).tokens ++ more = c.tokens ++ comma :: (rest.tokens ++ more) := by
    simp [Row.tokens]
  have hstop : endOf comma.stop rest.tokens = endOf last (Row.more c comma rest).tokens := by
    rw [Row.tokens, endOf_append]
    rfl
  rw [htokens, Act.exprs_eq, Act.bind_peek, if_neg hfirst, bind_of_ok hread, Act.bind_peek, peek_cons, if_pos hcomma,
    Act.bind_token, bind_of_ok (hrest closing more eof comma.stop hclosing hmore), hstop]
  rfl

theorem readable_none : Row.none.Readable := by
  intro closing more eof last hclosing hmore
  rw [Row.tokens, List.nil_append, Act.exprs_eq, Act.bind_peek, peek_mk, if_pos hmore]
  rfl

mutual

theorem readable : (c : Written) → c.Graded → Readable c
  | .leaf .., h => readable_of_primary h (Nat.lt_succ_self _) fun more eof last => primary_leaf h more eof last
  | .closure .., h => readable_closure h
  | .array _ elements _, h => readable_array h (row_readable elements h.2.1)
  | .parens _ inner _, h => readable_parens h (readable inner h.2.1)
  | .call callee _ args _, h => readable_call h (readable callee h.1) (row_readable args h.2.2.2.1)
  | .index object _ position _, h => readable_index h (readable object h.1) (readable position h.2.2.2.1)
  | .unary _ _ operand, h => readable_unary h (readable operand h.2.1)
  | .binary _ _ left _ right, h => readable_binary h (readable left h.2.1) (readable right h.2.2.2.1)
  | .assign _ target _ value, h => readable_assign h (readable target h.2.1) (readable value h.2.2.2.2)
  | .declare .., h => readable_declare h
  | .declareAs _ _ _ value, h => readable_declareAs h (readable value h.2.2.2)

theorem row_readable : (row : Row) → row.Graded → row.Readable
  | .none, _ => readable_none
  | .one e, h => readable_one h (readable e h)
  | .more e _ rest, h => readable_more h (readable e h.1) (row_readable rest h.2.2)

end

end Reading

end KestrelLang.Parser
