import KestrelLang.Proofs.Grammar.Steady

/-! # The parser as a cursor

A stream is a token list and a cursor that stands on one of its tokens, on the end of the text at the latest. Every
parser moves the cursor forward, reads only what stands in the list, and leaves the cursor on the list.

* `Stream.cursor` — the stream of a cursor; `Reads` — all that a parser can see of it.
* `Stops` — a parser gave up: where the cursor stands, and which token the complaint is about.
* `Progress` — a parser took at least so many tokens, or it gave up on the way.
* `Beyond` — the parsers that the others call again make progress behind a given token.
* `progress_block`, `progress_expression`, … — one parser after the other.
* `beyond` — they make progress everywhere. -/

namespace KestrelLang.Parser

open Lexer (TokenList)

variable {α β : Type} {l : TokenList} {opening : Option Position} {p q r k need : Nat}

/-! ## Cursors -/

/-- Where the token before the cursor ends; before the first one, where that one starts. -/
def endBefore (l : TokenList) : Nat → Position
  | 0 => (l.toList[0]?.map Token.start).getD .zero
  | p + 1 => (l.toList[p]?.map Token.stop).getD .zero

def Stream.cursor (l : TokenList) (p : Nat) : Stream := ⟨l.tokens.drop p, l.eof, endBefore l p⟩

theorem ofTokens_eq_cursor (l : TokenList) : Stream.ofTokens l = Stream.cursor l 0 := by
  obtain ⟨_ | ⟨t, ts⟩, eof⟩ := l <;> rfl

theorem getElem?_toList (l : TokenList) (hp : p < l.tokens.length) : l.toList[p]? = some l.tokens[p] := by
  rw [TokenList.toList, List.getElem?_append_left hp, List.getElem?_eq_getElem hp]

theorem getElem?_eof (l : TokenList) : l.toList[l.tokens.length]? = some l.eofToken := by
  rw [TokenList.toList, List.getElem?_append_right (Nat.le_refl _), Nat.sub_self]
  rfl

/-- The stream of a cursor on a token is that token and the stream of the next cursor. -/
theorem cursor_of_lt (l : TokenList) (hp : p < l.tokens.length) :
    Stream.cursor l p = ⟨l.tokens[p] :: l.tokens.drop (p + 1), l.eof, endBefore l p⟩ ∧
      Stream.cursor l (p + 1) = ⟨l.tokens.drop (p + 1), l.eof, l.tokens[p].stop⟩ := by
  refine ⟨?_, ?_⟩
  · rw [Stream.cursor, List.drop_eq_getElem_cons hp]
  · rw [Stream.cursor, endBefore, getElem?_toList l hp]
    rfl

theorem cursor_of_end (l : TokenList) :
    Stream.cursor l l.tokens.length = ⟨[], l.eof, endBefore l l.tokens.length⟩ := by
  rw [Stream.cursor, List.drop_length]

/-- All that can be seen of the stream stands in the list: the token under the cursor, the one behind it or else the
    last one, and an end of the one before it or else the start of the first one. -/
structure Sees (l : TokenList) (p : Nat) : Prop where
  next : ∃ t, l.toList[p]? = some t ∧ (Stream.cursor l p).peek = t.lexeme ∧ (Stream.cursor l p).place = t.start
  second : ∃ t, l.toList[min (p + 1) l.tokens.length]? = some t ∧ (Stream.cursor l p).peekSecond = t.lexeme
  last : ∃ t, l.toList[p - 1]? = some t ∧ (Stream.cursor l p).last = if p = 0 then t.start else t.stop

theorem toList_some (l : TokenList) (hp : p ≤ l.tokens.length) : ∃ t, l.toList[p]? = some t := by
  obtain hlt | rfl := Nat.lt_or_eq_of_le hp
  · exact ⟨_, getElem?_toList l hlt⟩
  · exact ⟨_, getElem?_eof l⟩

theorem sees (l : TokenList) (hp : p ≤ l.tokens.length) : Sees l p where
  next := by
    obtain hlt | rfl := Nat.lt_or_eq_of_le hp
    · rw [(cursor_of_lt l hlt).1]
      exact ⟨_, getElem?_toList l hlt, rfl, rfl⟩
    · rw [cursor_of_end]
      exact ⟨_, getElem?_eof l, rfl, rfl⟩
  second := by
    obtain hlt | rfl := Nat.lt_or_eq_of_le hp
    · have hnext : p + 1 ≤ l.tokens.length := hlt
      rw [(cursor_of_lt l hlt).1, Nat.min_eq_left hnext]
      obtain hlt' | heq := Nat.lt_or_eq_of_le hnext
      · rw [List.drop_eq_getElem_cons hlt']
        exact ⟨_, getElem?_toList l hlt', rfl⟩
      · rw [heq, List.drop_length]
        exact ⟨_, getElem?_eof l, rfl⟩
    · rw [cursor_of_end, Nat.min_eq_right (Nat.le_succ _)]
      exact ⟨_, getElem?_eof l, rfl⟩
  last := by
    cases p with
    | zero =>
      obtain ⟨t, ht⟩ := toList_some l (Nat.zero_le _)
      refine ⟨t, ht, ?_⟩
      rw [if_pos rfl, Stream.cursor, endBefore, ht]
      rfl
    | succ p =>
      refine ⟨_, getElem?_toList l hp, ?_⟩
      rw [if_neg (Nat.succ_ne_zero p), Stream.cursor, endBefore, getElem?_toList l hp]
      rfl

/-! ## Progress -/

/-- A parser that was called with the cursor at `p` gave up with the cursor at `q`. The complaint is about the token
    under the cursor, about the one before it, or, at the end of the text, about a brace that no brace closes;
    that brace was read on the way, or it is the one at `opening`. -/
inductive Stops (l : TokenList) (opening : Option Position) (p : Nat) : Nat → ParseError → Prop
  | next {q : Nat} {t : Token} {cause : ParseCause} : l.toList[q]? = some t →
    Stops l opening p q ⟨cause, t.start, ""⟩
  | taken {q : Nat} {t : Token} {cause : ParseCause} : p ≤ q → l.toList[q]? = some t →
    Stops l opening p (q + 1) ⟨cause, t.start, ""⟩
  | unclosed {q : Nat} {t : Token} : p ≤ q → q < l.tokens.length → l.toList[q]? = some t →
    t.lexeme = mark .lbrace → Stops l opening p l.tokens.length ⟨.unterminatedBlock, t.start, ""⟩
  | opened {place : Position} : opening = some place →
    Stops l opening p l.tokens.length ⟨.unterminatedBlock, place, ""⟩

/-- What a parser makes of the stream of the cursor `p`: a value, with the cursor at least `need` tokens further and
    on the end of the text at the latest, or a complaint, with the cursor in between. -/
inductive Progress (l : TokenList) (opening : Option Position) (p need : Nat) : Except ParseError (α × Stream) → Prop
  | done {v : α} {q : Nat} : p + need ≤ q → q ≤ l.tokens.length →
    Progress l opening p need (.ok (v, Stream.cursor l q))
  | failed {e : ParseError} {q : Nat} : p ≤ q → q ≤ l.tokens.length → Stops l opening p q e →
    Progress l opening p need (.error e)

theorem Stops.earlier {e : ParseError} (h : Stops l opening q r e) (hpq : p ≤ q) : Stops l opening p r e := by
  cases h with
  | next ht => exact .next ht
  | taken hq ht => exact .taken (Nat.le_trans hpq hq) ht
  | unclosed hq hlt ht hbrace => exact .unclosed (Nat.le_trans hpq hq) hlt ht hbrace
  | opened hplace => exact .opened hplace

theorem Progress.earlier {outcome : Except ParseError (α × Stream)} (h : Progress l opening q k outcome)
    (hpq : p ≤ q) (hneed : p + need ≤ q + k) : Progress l opening p need outcome := by
  cases h with
  | done hr hrn => exact .done (Nat.le_trans hneed hr) hrn
  | failed hqr hrn hstops => exact .failed (Nat.le_trans hpq hqr) hrn (hstops.earlier hpq)

theorem Progress.weaken {outcome : Except ParseError (α × Stream)} (h : Progress l opening p k outcome)
    (hneed : need ≤ k) : Progress l opening p need outcome :=
  h.earlier (Nat.le_refl p) (Nat.add_le_add_left hneed p)

theorem Progress.within {outcome : Except ParseError (α × Stream)} (h : Progress l none p need outcome) :
    Progress l opening p need outcome := by
  cases h with
  | done hq hqn => exact .done hq hqn
  | failed hpq hqn hstops =>
    refine .failed hpq hqn ?_
    cases hstops with
    | next ht => exact .next ht
    | taken hle ht => exact .taken hle ht
    | unclosed hle hlt ht hbrace => exact .unclosed hle hlt ht hbrace
    | opened hplace => cases hplace

/-- One parser after another; what the first one took, the second one need not take. -/
theorem Progress.bind {a : Act α} {f : α → Act β} (ha : Progress l opening p k (a (Stream.cursor l p)))
    (hf : ∀ v q, p + k ≤ q → q ≤ l.tokens.length →
      Progress l opening q (need - k) (f v (Stream.cursor l q))) :
    Progress l opening p need ((a >>= f) (Stream.cursor l p)) := by
  show Progress l opening p need (a (Stream.cursor l p) >>= fun r => f r.1 r.2)
  generalize a (Stream.cursor l p) = outcome at ha
  cases ha with
  | @done v q hq hqn =>
    apply (hf v q hq hqn).earlier
    · omega
    · omega
  | failed hpq hqn hstops => exact .failed hpq hqn hstops

theorem Progress.ite {c : Prop} [Decidable c] {a b : Act α} {s : Stream}
    (ha : c → Progress l opening p need (a s)) (hb : ¬ c → Progress l opening p need (b s)) :
    Progress l opening p need ((if c then a else b) s) := by
  by_cases hc : c
  · rw [if_pos hc]
    exact ha hc
  · rw [if_neg hc]
    exact hb hc

/-! ## Single tokens -/

theorem progress_pure (hp : p ≤ l.tokens.length) (v : α) :
    Progress l opening p 0 ((pure v : Act α) (Stream.cursor l p)) := .done (Nat.le_refl p) hp

theorem progress_spanned (hp : p ≤ l.tokens.length) (start : Position) (tree : Span → α) :
    Progress l opening p 0 ((do return tree (← Act.since start) : Act α) (Stream.cursor l p)) :=
  .done (Nat.le_refl p) hp

theorem progress_error (hp : p ≤ l.tokens.length) (cause : ParseCause) :
    Progress l opening p need (.error ⟨cause, (Stream.cursor l p).place, ""⟩ : Except ParseError (α × Stream)) := by
  obtain ⟨t, ht, -, hplace⟩ := (sees l hp).next
  rw [hplace]
  exact .failed (Nat.le_refl p) hp (.next ht)

theorem progress_complain (hp : p ≤ l.tokens.length) (cause : Lexeme → ParseCause) :
    Progress l opening p need ((Act.complain cause : Act α) (Stream.cursor l p)) := progress_error hp _

theorem progress_token (hp : p ≤ l.tokens.length) : Progress l opening p 1 (Act.token (Stream.cursor l p)) := by
  obtain hlt | rfl := Nat.lt_or_eq_of_le hp
  · have hcursor := cursor_of_lt l hlt
    rw [hcursor.1]
    show Progress l opening p 1 (.ok (l.tokens[p], ⟨l.tokens.drop (p + 1), l.eof, l.tokens[p].stop⟩))
    rw [← hcursor.2]
    exact .done (Nat.le_refl _) hlt
  · have herror : Progress l opening l.tokens.length 1 (.error ⟨_, _, ""⟩ : Except ParseError (Token × Stream)) :=
      progress_error hp (.unexpectedInExpression (Stream.cursor l l.tokens.length).peek)
    rw [cursor_of_end] at herror ⊢
    exact herror

theorem expect_cases (hp : p ≤ l.tokens.length) (wanted : Lexeme) :
    (∃ t, p < l.tokens.length ∧ l.toList[p]? = some t ∧ t.lexeme = wanted ∧
      Act.expect wanted (Stream.cursor l p) = .ok (t, Stream.cursor l (p + 1))) ∨
    Act.expect wanted (Stream.cursor l p) =
      .error ⟨.expectedLexeme wanted (Stream.cursor l p).peek, (Stream.cursor l p).place, ""⟩ := by
  obtain hlt | rfl := Nat.lt_or_eq_of_le hp
  · have hcursor := cursor_of_lt l hlt
    by_cases hwanted : l.tokens[p].lexeme = wanted
    · refine .inl ⟨_, hlt, getElem?_toList l hlt, hwanted, ?_⟩
      rw [hcursor.1, hcursor.2, ← hwanted]
      exact Act.expect_cons _ _ _ _
    · right
      rw [hcursor.1, Act.expect, Parser.expect, accept_of_ne (s := ⟨l.tokens[p] :: _, _, _⟩) hwanted]
      rfl
  · right
    rw [cursor_of_end]
    rfl

theorem progress_expect (hp : p ≤ l.tokens.length) (wanted : Lexeme) :
    Progress l opening p 1 (Act.expect wanted (Stream.cursor l p)) := by
  obtain ⟨t, hlt, -, -, h⟩ | h := expect_cases hp wanted
  · rw [h]
    exact .done (Nat.le_refl _) hlt
  · rw [h]
    exact progress_error hp _

theorem progress_expectName (hp : p ≤ l.tokens.length) (role : String) :
    Progress l opening p 1 (Act.expectName role (Stream.cursor l p)) := by
  have herror : Progress l opening p 1 (.error ⟨_, _, ""⟩ : Except ParseError (Name × Stream)) :=
    progress_error hp (.expectedName role (Stream.cursor l p).peek)
  obtain hlt | rfl := Nat.lt_or_eq_of_le hp
  · have hcursor := cursor_of_lt l hlt
    have hdone : ∀ v : Name, Progress l opening p 1 (.ok (v, Stream.cursor l (p + 1))) := fun v =>
      .done (Nat.le_refl _) hlt
    rw [hcursor.2] at hdone
    rw [hcursor.1] at herror ⊢
    generalize l.tokens[p] = t at herror hdone
    obtain ⟨lexeme, start, stop⟩ := t
    cases lexeme with
    | ident name => exact hdone _
    | _ => exact herror
  · rw [cursor_of_end] at herror ⊢
    exact herror

theorem progress_number (hp : p ≤ l.tokens.length) {literal : Token → Act Expr}
    (hliteral : ∀ t s, (∃ v, literal t s = .ok (v, s)) ∨ ∃ cause, literal t s = .error ⟨cause, t.start, ""⟩) :
    Progress l opening p 1 ((do literal (← Act.token) : Act Expr) (Stream.cursor l p)) := by
  obtain hlt | rfl := Nat.lt_or_eq_of_le hp
  · have hcursor := cursor_of_lt l hlt
    rw [hcursor.1, Act.bind_token, ← hcursor.2]
    obtain ⟨v, hv⟩ | ⟨cause, hcause⟩ := hliteral l.tokens[p] (Stream.cursor l (p + 1))
    · rw [hv]
      exact .done (Nat.le_refl _) hlt
    · rw [hcause]
      exact .failed (Nat.le_succ p) hlt (.taken (Nat.le_refl p) (getElem?_toList l hlt))
  · refine Progress.bind (progress_token hp) fun t q hq hqn => ?_
    omega

theorem progress_int (hp : p ≤ l.tokens.length) (digits : String) :
    Progress l opening p 1 ((do Act.intLiteral (← Act.token) digits : Act Expr) (Stream.cursor l p)) := by
  apply progress_number hp
  intro t s
  unfold Act.intLiteral Parser.intLiteral
  cases Number.readInt64? digits with
  | some n => exact .inl ⟨_, rfl⟩
  | none => exact .inr ⟨_, rfl⟩

theorem progress_float (hp : p ≤ l.tokens.length) (digits : String) :
    Progress l opening p 1 ((do Act.floatLiteral (← Act.token) digits : Act Expr) (Stream.cursor l p)) := by
  apply progress_number hp
  intro t s
  unfold Act.floatLiteral Parser.floatLiteral
  cases Number.readFloat? digits with
  | some x => exact .inl ⟨_, rfl⟩
  | none => exact .inr ⟨_, rfl⟩

/-! ## One parser after the other -/

/-- Behind the token `p`, the parsers that the others call again make progress. The end of the text is the only token
    that says so. -/
structure Beyond (l : TokenList) (p : Nat) : Prop where
  only : ∀ t ∈ l.tokens, t.lexeme ≠ .eof
  expr : ∀ q, p < q → q ≤ l.tokens.length → Progress l none q 1 (Act.expression (Stream.cursor l q))
  binary : ∀ min q, p < q → q ≤ l.tokens.length → Progress l none q 1 (Act.binary min (Stream.cursor l q))
  operators : ∀ min start left q, p < q → q ≤ l.tokens.length →
    Progress l none q 0 (Act.operators min start left (Stream.cursor l q))
  suffixes : ∀ start e q, p < q → q ≤ l.tokens.length →
    Progress l none q 0 (Act.suffixes start e (Stream.cursor l q))
  exprs : ∀ closing q, p < q → q ≤ l.tokens.length → Progress l none q 0 (Act.exprs closing (Stream.cursor l q))
  names : ∀ q, p < q → q ≤ l.tokens.length → Progress l none q 0 (Act.names (Stream.cursor l q))
  stmts : ∀ opening q, p < q → q ≤ l.tokens.length →
    Progress l opening q 0 (Act.stmts opening (Stream.cursor l q))
  clauses : ∀ q, p < q → q ≤ l.tokens.length → Progress l none q 0 (Act.clauses (Stream.cursor l q))

section Constructs

variable (h : Beyond l p) (hpq : p ≤ q) (hq : q ≤ l.tokens.length)
include h hpq hq

omit h hpq hq in
/-- A complaint about the statements between braces is one about the opening brace or about what comes behind it. -/
theorem Stops.close {t : Token} {e : ParseError} (hstops : Stops l (some t.start) (q + 1) r e)
    (hlt : q < l.tokens.length) (ht : l.toList[q]? = some t) (hbrace : t.lexeme = mark .lbrace) :
    Stops l none q r e := by
  cases hstops with
  | next ht' => exact .next ht'
  | taken hle ht' => exact .taken (Nat.le_of_succ_le hle) ht'
  | unclosed hle hlt' ht' hbrace' => exact .unclosed (Nat.le_of_succ_le hle) hlt' ht' hbrace'
  | opened hplace =>
    cases hplace
    exact .unclosed (Nat.le_refl q) hlt ht hbrace

omit h hpq hq in
theorem Progress.close {t : Token} {outcome : Except ParseError (α × Stream)}
    (hbody : Progress l (some t.start) (q + 1) 0 outcome) (hlt : q < l.tokens.length) (ht : l.toList[q]? = some t)
    (hbrace : t.lexeme = mark .lbrace) : Progress l none q 1 outcome := by
  cases hbody with
  | done hr hrn => exact .done hr hrn
  | failed hqr hrn hstops => exact .failed (Nat.le_of_succ_le hqr) hrn (hstops.close hlt ht hbrace)

theorem progress_block : Progress l none q 1 (Act.block (Stream.cursor l q)) := by
  rw [Act.block_eq]
  obtain ⟨t, hlt, ht, hbrace, htaken⟩ | hmissed := expect_cases hq (mark .lbrace)
  · rw [bind_of_ok htaken]
    refine Progress.close ?_ hlt ht hbrace
    refine (h.stmts _ (q + 1) (by omega) hlt).bind fun body q2 h2 hq2 => ?_
    exact ((progress_expect hq2 _).weaken (Nat.zero_le 1)).bind fun _ q3 h3 hq3 => progress_spanned hq3 _ _
  · rw [bind_of_error hmissed]
    exact progress_error hq _

theorem progress_names : Progress l none q 0 (Act.names (Stream.cursor l q)) := by
  rw [Act.names_eq, Act.bind_peek]
  refine .ite (fun _ => progress_pure hq _) fun _ => ?_
  refine (progress_expectName hq _).bind fun name q1 h1 hq1 => ?_
  rw [Act.bind_peek]
  refine .ite (fun _ => ?_) fun _ => progress_pure hq1 _
  refine (progress_token hq1).bind fun _ q2 h2 hq2 => ?_
  exact (h.names q2 (by omega) hq2).bind fun rest q3 h3 hq3 => progress_pure hq3 _

theorem progress_params : Progress l none q 0 (Act.params (Stream.cursor l q)) := by
  rw [Act.params_eq, Act.bind_peek]
  refine .ite (fun _ => ?_) fun _ => progress_pure hq _
  refine (progress_token hq).bind fun _ q1 h1 hq1 => ?_
  refine (h.names q1 (by omega) hq1).bind fun list q2 h2 hq2 => ?_
  exact (progress_expect hq2 _).bind fun _ q3 h3 hq3 => progress_pure hq3 _

theorem progress_primary : Progress l none q 1 (Act.primary (Stream.cursor l q)) := by
  rw [Act.primary_eq, Act.bind_peek]
  generalize (Stream.cursor l q).peek = lexeme
  cases lexeme with
  | int digits => exact progress_int hq digits
  | float digits => exact progress_float hq digits
  | string contents => exact (progress_token hq).bind fun t q1 h1 hq1 => progress_pure hq1 _
  | ident name => exact (progress_token hq).bind fun t q1 h1 hq1 => progress_pure hq1 _
  | keyword w =>
    cases w with
    | undefWord => exact (progress_token hq).bind fun t q1 h1 hq1 => progress_pure hq1 _
    | subWord =>
      refine (progress_token hq).bind fun t q1 h1 hq1 => ?_
      refine (progress_params h (by omega) hq1).bind fun list q2 h2 hq2 => ?_
      exact (progress_block h (by omega) hq2).bind fun body q3 h3 hq3 => progress_spanned hq3 _ _
    | _ => exact progress_complain hq _
  | punct m =>
    cases m with
    | lparen =>
      refine (progress_token hq).bind fun _ q1 h1 hq1 => ?_
      refine (h.expr q1 (by omega) hq1).bind fun e q2 h2 hq2 => ?_
      exact (progress_expect hq2 _).bind fun _ q3 h3 hq3 => progress_pure hq3 _
    | lbracket =>
      refine (progress_token hq).bind fun t q1 h1 hq1 => ?_
      refine (h.exprs _ q1 (by omega) hq1).bind fun elements q2 h2 hq2 => ?_
      exact (progress_expect hq2 _).bind fun _ q3 h3 hq3 => progress_spanned hq3 _ _
    | _ => exact progress_complain hq _
  | _ => exact progress_complain hq _

theorem progress_arguments : Progress l none q 1 (Act.arguments (Stream.cursor l q)) := by
  rw [Act.arguments_eq]
  refine (progress_expect hq _).bind fun _ q1 h1 hq1 => ?_
  refine (h.exprs _ q1 (by omega) hq1).bind fun list q2 h2 hq2 => ?_
  exact (progress_expect hq2 _).bind fun _ q3 h3 hq3 => progress_pure hq3 _

theorem progress_suffixes (start : Position) (e : Expr) :
    Progress l none q 0 (Act.suffixes start e (Stream.cursor l q)) := by
  rw [Act.suffixes_eq, Act.bind_peek]
  refine .ite (fun _ => ?_) fun _ => ?_
  · refine (progress_arguments h hpq hq).bind fun args q1 h1 hq1 => ?_
    exact h.suffixes _ _ q1 (by omega) hq1
  · rw [Act.bind_peek]
    refine .ite (fun _ => ?_) fun _ => progress_pure hq _
    refine (progress_token hq).bind fun _ q1 h1 hq1 => ?_
    refine (h.expr q1 (by omega) hq1).bind fun index q2 h2 hq2 => ?_
    refine (progress_expect hq2 _).bind fun _ q3 h3 hq3 => ?_
    exact h.suffixes _ _ q3 (by omega) hq3

theorem progress_suffixed : Progress l none q 1 (Act.suffixed (Stream.cursor l q)) := by
  rw [Act.suffixed_eq, Act.bind_place]
  refine (progress_primary h hpq hq).bind fun e q1 h1 hq1 => ?_
  exact progress_suffixes h (by omega) hq1 _ _

theorem progress_unary : Progress l none q 1 (Act.unary (Stream.cursor l q)) := by
  rw [Act.unary_eq, Act.bind_peek]
  cases prefixOp? (Stream.cursor l q).peek with
  | some op =>
    refine (progress_token hq).bind fun t q1 h1 hq1 => ?_
    exact ((h.binary _ q1 (by omega) hq1)).bind fun operand q2 h2 hq2 => progress_spanned hq2 _ _
  | none => exact progress_suffixed h hpq hq

theorem progress_operators (min : Nat) (start : Position) (left : Expr) :
    Progress l none q 0 (Act.operators min start left (Stream.cursor l q)) := by
  rw [Act.operators_eq, Act.bind_peek]
  cases infixLevel? (Stream.cursor l q).peek with
  | some found =>
    obtain ⟨level, op⟩ := found
    refine .ite (fun _ => progress_pure hq _) fun _ => ?_
    refine (progress_token hq).bind fun _ q1 h1 hq1 => ?_
    refine (h.binary _ q1 (by omega) hq1).bind fun right q2 h2 hq2 => ?_
    exact h.operators _ _ _ q2 (by omega) hq2
  | none => exact progress_pure hq _

theorem progress_binary (min : Nat) : Progress l none q 1 (Act.binary min (Stream.cursor l q)) := by
  rw [Act.binary_eq, Act.bind_place]
  refine (progress_unary h hpq hq).bind fun left q1 h1 hq1 => ?_
  exact progress_operators h (by omega) hq1 _ _ _

theorem progress_declaration (start : Position) :
    Progress l none q 1 (Act.declaration start (Stream.cursor l q)) := by
  rw [Act.declaration_eq]
  refine (progress_expectName hq _).bind fun name q1 h1 hq1 => ?_
  rw [Act.bind_peek]
  refine .ite (fun _ => ?_) fun _ => progress_spanned hq1 _ _
  refine (progress_token hq1).bind fun _ q2 h2 hq2 => ?_
  exact (h.expr q2 (by omega) hq2).bind fun value q3 h3 hq3 => progress_spanned hq3 _ _

theorem progress_expression : Progress l none q 1 (Act.expression (Stream.cursor l q)) := by
  rw [Act.expression_eq, Act.bind_place, Act.bind_peek]
  refine .ite (fun _ => ?_) fun _ => ?_
  · refine (progress_token hq).bind fun _ q1 h1 hq1 => ?_
    exact (progress_declaration h (by omega) hq1 _).weaken (Nat.zero_le 1)
  · refine (progress_binary h hpq hq _).bind fun left q1 h1 hq1 => ?_
    rw [Act.bind_peek]
    cases assignOp? (Stream.cursor l q1).peek with
    | some op =>
      refine .ite (fun _ => ?_) fun _ => progress_complain hq1 _
      refine (progress_token hq1).bind fun _ q2 h2 hq2 => ?_
      exact (h.expr q2 (by omega) hq2).bind fun right q3 h3 hq3 => progress_spanned hq3 _ _
    | none => exact progress_pure hq1 _

theorem progress_exprs (closing : Punct) : Progress l none q 0 (Act.exprs closing (Stream.cursor l q)) := by
  rw [Act.exprs_eq, Act.bind_peek]
  refine .ite (fun _ => progress_pure hq _) fun _ => ?_
  refine (progress_expression h hpq hq).bind fun e q1 h1 hq1 => ?_
  rw [Act.bind_peek]
  refine .ite (fun _ => ?_) fun _ => progress_pure hq1 _
  refine (progress_token hq1).bind fun _ q2 h2 hq2 => ?_
  exact (h.exprs _ q2 (by omega) hq2).bind fun rest q3 h3 hq3 => progress_pure hq3 _

/-! Statements. -/

theorem progress_parenthesised : Progress l none q 1 (Act.parenthesised (Stream.cursor l q)) := by
  rw [Act.parenthesised_eq]
  refine (progress_expect hq _).bind fun _ q1 h1 hq1 => ?_
  refine (h.expr q1 (by omega) hq1).bind fun e q2 h2 hq2 => ?_
  exact (progress_expect hq2 _).bind fun _ q3 h3 hq3 => progress_pure hq3 _

theorem progress_bareBlock (label : Option Name) (start : Position) :
    Progress l none q 1 (Act.bareBlock label start (Stream.cursor l q)) := by
  rw [Act.bareBlock_eq]
  exact (progress_block h hpq hq).bind fun body q1 h1 hq1 => progress_spanned hq1 _ _

theorem progress_whileTail (label : Option Name) (negate : Bool) (start : Position) :
    Progress l none q 1 (Act.whileTail label negate start (Stream.cursor l q)) := by
  rw [Act.whileTail_eq]
  refine (progress_parenthesised h hpq hq).bind fun test q1 h1 hq1 => ?_
  exact (progress_block h (by omega) hq1).bind fun body q2 h2 hq2 => progress_spanned hq2 _ _

theorem progress_foreachTail (label : Option Name) (start : Position) :
    Progress l none q 1 (Act.foreachTail label start (Stream.cursor l q)) := by
  rw [Act.foreachTail_eq]
  refine (progress_expect hq _).bind fun _ q1 h1 hq1 => ?_
  refine (progress_expectName hq1 _).bind fun item q2 h2 hq2 => ?_
  refine (progress_parenthesised h (by omega) hq2).bind fun iterable q3 h3 hq3 => ?_
  exact (progress_block h (by omega) hq3).bind fun body q4 h4 hq4 => progress_spanned hq4 _ _

theorem progress_headerPart (closing : Punct) :
    Progress l none q 1 (Act.headerPart closing (Stream.cursor l q)) := by
  rw [Act.headerPart_eq, Act.bind_peek]
  refine .ite (fun _ => ?_) fun _ => ?_
  · exact (progress_expect hq _).bind fun _ q1 h1 hq1 => progress_pure hq1 _
  · refine (progress_expression h hpq hq).bind fun e q1 h1 hq1 => ?_
    exact (progress_expect hq1 _).bind fun _ q2 h2 hq2 => progress_pure hq2 _

theorem progress_forTail (label : Option Name) (start : Position) :
    Progress l none q 1 (Act.forTail label start (Stream.cursor l q)) := by
  rw [Act.forTail_eq, Act.bind_peek]
  refine .ite (fun _ => progress_foreachTail h hpq hq _ _) fun _ => ?_
  refine (progress_expect hq _).bind fun _ q1 h1 hq1 => ?_
  refine (progress_headerPart h (by omega) hq1 _).bind fun init q2 h2 hq2 => ?_
  refine (progress_headerPart h (by omega) hq2 _).bind fun test q3 h3 hq3 => ?_
  refine (progress_headerPart h (by omega) hq3 _).bind fun step q4 h4 hq4 => ?_
  exact (progress_block h (by omega) hq4).bind fun body q5 h5 hq5 => progress_spanned hq5 _ _

theorem progress_loopAt (label : Option Name) (start : Position) {lexeme : Lexeme} {loop : Act Stmt}
    (hloop : Act.loopAt label start lexeme = some loop) : Progress l none q 1 (loop (Stream.cursor l q)) := by
  unfold Act.loopAt at hloop
  split at hloop <;> cases hloop
  · exact progress_bareBlock h hpq hq _ _
  · refine (progress_token hq).bind fun _ q1 h1 hq1 => ?_
    exact (progress_whileTail h (by omega) hq1 _ _ _).weaken (Nat.zero_le 1)
  · refine (progress_token hq).bind fun _ q1 h1 hq1 => ?_
    exact (progress_whileTail h (by omega) hq1 _ _ _).weaken (Nat.zero_le 1)
  · refine (progress_token hq).bind fun _ q1 h1 hq1 => ?_
    exact (progress_forTail h (by omega) hq1 _ _).weaken (Nat.zero_le 1)
  · refine (progress_token hq).bind fun _ q1 h1 hq1 => ?_
    exact (progress_foreachTail h (by omega) hq1 _ _).weaken (Nat.zero_le 1)

theorem progress_labeled : Progress l none q 1 (Act.labeled (Stream.cursor l q)) := by
  rw [Act.labeled_eq, Act.bind_place]
  refine (progress_expectName hq _).bind fun label q1 h1 hq1 => ?_
  refine (progress_expect hq1 _).bind fun _ q2 h2 hq2 => ?_
  rw [Act.bind_peek]
  cases hloop : Act.loopAt (some label) (Stream.cursor l q).place (Stream.cursor l q2).peek with
  | some loop => exact (progress_loopAt h (by omega) hq2 _ _ hloop).weaken (Nat.zero_le 1)
  | none => exact progress_complain hq2 _

theorem progress_clauses : Progress l none q 0 (Act.clauses (Stream.cursor l q)) := by
  rw [Act.clauses_eq, Act.bind_peek]
  refine .ite (fun _ => ?_) fun _ => progress_pure hq _
  refine (progress_token hq).bind fun _ q1 h1 hq1 => ?_
  refine (progress_parenthesised h (by omega) hq1).bind fun test q2 h2 hq2 => ?_
  refine (progress_block h (by omega) hq2).bind fun body q3 h3 hq3 => ?_
  exact (h.clauses q3 (by omega) hq3).bind fun rest q4 h4 hq4 => progress_pure hq4 _

theorem progress_otherwise : Progress l none q 0 (Act.otherwise (Stream.cursor l q)) := by
  rw [Act.otherwise_eq, Act.bind_peek]
  refine .ite (fun _ => ?_) fun _ => progress_pure hq _
  refine (progress_token hq).bind fun _ q1 h1 hq1 => ?_
  exact (progress_block h (by omega) hq1).weaken (Nat.zero_le 1)

theorem progress_ifTail (negate : Bool) (start : Position) :
    Progress l none q 1 (Act.ifTail negate start (Stream.cursor l q)) := by
  rw [Act.ifTail_eq]
  refine (progress_parenthesised h hpq hq).bind fun test q1 h1 hq1 => ?_
  refine (progress_block h (by omega) hq1).bind fun body q2 h2 hq2 => ?_
  refine (progress_clauses h (by omega) hq2).bind fun more q3 h3 hq3 => ?_
  exact (progress_otherwise h (by omega) hq3).bind fun last q4 h4 hq4 => progress_spanned hq4 _ _

theorem progress_subTail (start : Position) :
    Progress l none q 1 (Act.subTail start (Stream.cursor l q)) := by
  rw [Act.subTail_eq]
  refine (progress_expectName hq _).bind fun name q1 h1 hq1 => ?_
  refine (progress_params h (by omega) hq1).bind fun list q2 h2 hq2 => ?_
  exact (progress_block h (by omega) hq2).bind fun body q3 h3 hq3 => progress_spanned hq3 _ _

omit h hpq in
theorem progress_verbTail (verb : Verb) (start : Position) :
    Progress l none q 0 (Act.verbTail verb start (Stream.cursor l q)) := by
  rw [Act.verbTail_eq, Act.bind_peek]
  generalize (Stream.cursor l q).peek = lexeme
  cases lexeme with
  | ident name => exact (progress_token hq).bind fun t q1 h1 hq1 => progress_spanned hq1 _ _
  | _ => exact progress_spanned hq _ _

theorem progress_gotoTail (start : Position) :
    Progress l none q 1 (Act.gotoTail start (Stream.cursor l q)) := by
  rw [Act.gotoTail_eq, Act.bind_peek]
  refine .ite (fun _ => ?_) fun _ => ?_
  · refine (progress_token hq).bind fun _ q1 h1 hq1 => ?_
    refine (progress_expectName hq1 _).bind fun name q2 h2 hq2 => ?_
    rw [Act.bind_peek]
    refine .ite (fun _ => ?_) fun _ => progress_spanned hq2 _ _
    exact (progress_arguments h (by omega) hq2).bind fun args q3 h3 hq3 => progress_spanned hq3 _ _
  · exact (progress_expectName hq _).bind fun label q1 h1 hq1 => progress_spanned hq1 _ _

theorem progress_returnTail (start : Position) :
    Progress l none q 0 (Act.returnTail start (Stream.cursor l q)) := by
  rw [Act.returnTail_eq, Act.bind_peek]
  refine .ite (fun _ => progress_spanned hq _ _) fun _ => ?_
  exact (progress_expression h hpq hq).bind fun e q1 h1 hq1 => progress_spanned hq1 _ _

theorem progress_simple : Progress l none q 1 (Act.simple (Stream.cursor l q)) := by
  have hexpr : Progress l none q 1 ((do return Stmt.expr (← Act.expression) : Act Stmt) (Stream.cursor l q)) :=
    (progress_expression h hpq hq).bind fun e q1 h1 hq1 => progress_pure hq1 _
  rw [Act.simple_eq, Act.bind_peek]
  generalize (Stream.cursor l q).peek = lexeme
  cases lexeme with
  | keyword w =>
    cases w with
    | lastWord => exact (progress_token hq).bind fun t q1 h1 hq1 => progress_verbTail hq1 _ _
    | nextWord => exact (progress_token hq).bind fun t q1 h1 hq1 => progress_verbTail hq1 _ _
    | redoWord => exact (progress_token hq).bind fun t q1 h1 hq1 => progress_verbTail hq1 _ _
    | gotoWord =>
      refine (progress_token hq).bind fun t q1 h1 hq1 => ?_
      exact (progress_gotoTail h (by omega) hq1 _).weaken (Nat.zero_le 1)
    | returnWord => exact (progress_token hq).bind fun t q1 h1 hq1 => progress_returnTail h (by omega) hq1 _
    | _ => exact hexpr
  | _ => exact hexpr

theorem progress_modifier (stmt : Stmt) (start : Position) :
    Progress l none q 0 (Act.modifier stmt start (Stream.cursor l q)) := by
  rw [Act.modifier_eq, Act.bind_peek]
  generalize (Stream.cursor l q).peek = lexeme
  cases lexeme with
  | keyword w =>
    cases w with
    | ifWord =>
      refine (progress_token hq).bind fun _ q1 h1 hq1 => ?_
      exact (h.expr q1 (by omega) hq1).bind fun test q2 h2 hq2 => progress_spanned hq2 _ _
    | unlessWord =>
      refine (progress_token hq).bind fun _ q1 h1 hq1 => ?_
      exact (h.expr q1 (by omega) hq1).bind fun test q2 h2 hq2 => progress_spanned hq2 _ _
    | _ => exact progress_pure hq _
  | _ => exact progress_pure hq _

omit h hpq in
theorem progress_terminator : Progress l none q 0 (Act.terminator (Stream.cursor l q)) := by
  rw [Act.terminator_eq, Act.bind_peek]
  refine .ite (fun _ => ?_) fun _ => .ite (fun _ => progress_pure hq _) fun _ => progress_complain hq _
  exact (progress_token hq).bind fun _ q1 h1 hq1 => progress_pure hq1 _

theorem progress_terminated : Progress l none q 1 (Act.terminated (Stream.cursor l q)) := by
  rw [Act.terminated_eq, Act.bind_place]
  refine (progress_simple h hpq hq).bind fun stmt q1 h1 hq1 => ?_
  refine (progress_modifier h (by omega) hq1 _ _).bind fun whole q2 h2 hq2 => ?_
  exact (progress_terminator hq2).bind fun _ q3 h3 hq3 => progress_pure hq3 _

theorem progress_plain : Progress l none q 1 (Act.plain (Stream.cursor l q)) := by
  have hterminated := progress_terminated h hpq hq
  rw [Act.plain_eq, Act.bind_peek, Act.bind_peekSecond]
  generalize (Stream.cursor l q).peek = lexeme
  generalize (Stream.cursor l q).peekSecond = second
  cases lexeme with
  | keyword w =>
    cases w with
    | subWord =>
      cases second with
      | ident name =>
        refine (progress_token hq).bind fun t q1 h1 hq1 => ?_
        exact (progress_subTail h (by omega) hq1 _).weaken (Nat.zero_le 1)
      | _ => exact hterminated
    | ifWord =>
      refine (progress_token hq).bind fun t q1 h1 hq1 => ?_
      exact (progress_ifTail h (by omega) hq1 _ _).weaken (Nat.zero_le 1)
    | unlessWord =>
      refine (progress_token hq).bind fun t q1 h1 hq1 => ?_
      exact (progress_ifTail h (by omega) hq1 _ _).weaken (Nat.zero_le 1)
    | _ => exact hterminated
  | _ => exact hterminated

theorem progress_statement : Progress l none q 1 (Act.statement (Stream.cursor l q)) := by
  rw [Act.statement_eq, Act.bind_place, Act.bind_atLabel]
  refine .ite (fun _ => progress_labeled h hpq hq) fun _ => ?_
  rw [Act.bind_peek]
  cases hloop : Act.loopAt none (Stream.cursor l q).place (Stream.cursor l q).peek with
  | some loop => exact progress_loopAt h hpq hq _ _ hloop
  | none => exact progress_plain h hpq hq

omit hpq in
theorem eq_of_peek_eof (heof : (Stream.cursor l q).peek = .eof) : q = l.tokens.length := by
  obtain hlt | heq := Nat.lt_or_eq_of_le hq
  · rw [(cursor_of_lt l hlt).1] at heof
    exact absurd heof (h.only _ (List.getElem_mem hlt))
  · exact heq

theorem progress_stmts (opening : Option Position) :
    Progress l opening q 0 (Act.stmts opening (Stream.cursor l q)) := by
  rw [Act.stmts_eq, Act.bind_peek]
  refine .ite (fun _ => progress_pure hq _) fun hopen => .ite (fun heof => ?_) fun _ => .ite (fun _ => ?_) fun _ => ?_
  · obtain rfl := eq_of_peek_eof h hq heof
    cases opening with
    | none => exact absurd heof hopen
    | some place => exact .failed (Nat.le_refl _) hq (.opened rfl)
  · refine (progress_token hq).bind fun _ q1 h1 hq1 => ?_
    exact h.stmts _ q1 (by omega) hq1
  · refine (progress_statement h hpq hq).within.bind fun stmt q1 h1 hq1 => ?_
    exact (h.stmts _ q1 (by omega) hq1).bind fun rest q2 h2 hq2 => progress_pure hq2 _

end Constructs

/-! ## All parsers -/

/-- The parsers make progress behind every token, from the last one back to the first. -/
theorem beyond (honly : ∀ t ∈ l.tokens, t.lexeme ≠ .eof) (p : Nat) : Beyond l p := by
  induction hleft : l.tokens.length - p using Nat.strongRecOn generalizing p with
  | ind left ih =>
    -- What is called behind `p` is called at some `q`, and from there on only what is called behind `q` counts.
    have hbeyond : ∀ q, p < q → q ≤ l.tokens.length → Beyond l q := fun q hq hqn =>
      ih (l.tokens.length - q) (by omega) q rfl
    exact
      { only := honly
        expr := fun q hq hqn => progress_expression (hbeyond q hq hqn) (Nat.le_refl q) hqn
        binary := fun min q hq hqn => progress_binary (hbeyond q hq hqn) (Nat.le_refl q) hqn min
        operators := fun min start left q hq hqn =>
          progress_operators (hbeyond q hq hqn) (Nat.le_refl q) hqn min start left
        suffixes := fun start e q hq hqn => progress_suffixes (hbeyond q hq hqn) (Nat.le_refl q) hqn start e
        exprs := fun closing q hq hqn => progress_exprs (hbeyond q hq hqn) (Nat.le_refl q) hqn closing
        names := fun q hq hqn => progress_names (hbeyond q hq hqn) (Nat.le_refl q) hqn
        stmts := fun opening q hq hqn => progress_stmts (hbeyond q hq hqn) (Nat.le_refl q) hqn opening
        clauses := fun q hq hqn => progress_clauses (hbeyond q hq hqn) (Nat.le_refl q) hqn }

end KestrelLang.Parser
