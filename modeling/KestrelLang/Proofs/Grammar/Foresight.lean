import KestrelLang.Grammar.Parser
import KestrelLang.Proofs.Grammar.Splitting

/-! # What a parser knows before the text ends

A parser that never looked past the last token cannot tell whether more tokens follow. So either its result
depends on the end of the text, and then it says so, or it is the result on every longer stream.

* `ParseCause.AtEnd` — a cause that speaks of the end of the text; every error with one is incomplete.
* `Stream.extend` — a stream with more tokens after its own.
* `Foreseen` — a result rests on the end of the text, or it is the same on the longer stream.
* `foreseen_parsers` — the results of all parsers are foreseen.
* `parseModule_append_newline` — an error that does not speak of the end of the text stays one. -/

namespace KestrelLang

/-! ## Errors at the end of the text -/

def ParseCause.AtEnd : ParseCause → Prop
  | .unterminatedString | .unterminatedBlock => True
  | .expectedLexeme _ found | .expectedName _ found | .expectedTerminator found
  | .unexpectedInExpression found | .misplacedLabel _ found => found = .eof
  | _ => False

namespace ParseError

theorem occursIn_append (part before after : List Char) :
    occursIn part (before ++ (part ++ after)) = true := by
  induction before with
  | nil =>
    have hprefix : part.isPrefixOf (part ++ after) = true :=
      List.isPrefixOf_iff_prefix.mpr (List.prefix_append part after)
    rw [List.nil_append]
    cases hwhole : part ++ after with
    | nil =>
      rw [(List.append_eq_nil_iff.mp hwhole).1]
      rfl
    | cons c cs => rw [occursIn, ← hwhole, hprefix, Bool.true_or]
  | cons c before ih => rw [List.cons_append, occursIn, ih, Bool.or_true]

theorem isIncomplete_of_end {e : ParseError} (before after : String)
    (h : e.summary = before ++ ("end of input" ++ after)) : e.isIncomplete = true := by
  rw [isIncomplete, h, String.toList_append, String.toList_append, occursIn_append, Bool.true_or]

theorem isIncomplete_of_unterminated {e : ParseError} (after : String)
    (h : e.summary = "unterminated" ++ after) : e.isIncomplete = true := by
  rw [isIncomplete, h, String.toList_append,
    List.isPrefixOf_iff_prefix.mpr (List.prefix_append _ after.toList), Bool.or_true]

theorem isIncomplete_of_atEnd {e : ParseError} (h : e.cause.AtEnd) : e.isIncomplete = true := by
  obtain ⟨cause, place, origin⟩ := e
  cases cause with
  | unterminatedString => exact isIncomplete_of_unterminated " string literal" rfl
  | unterminatedBlock => exact isIncomplete_of_unterminated " block" rfl
  | expectedLexeme wanted found =>
    obtain rfl : found = .eof := h
    exact isIncomplete_of_end ("expected " ++ Text.quote wanted.text ++ ", found ") "" rfl
  | expectedName role found =>
    obtain rfl : found = .eof := h
    exact isIncomplete_of_end ("expected " ++ role ++ ", found ") "" rfl
  | expectedTerminator found =>
    obtain rfl : found = .eof := h
    exact isIncomplete_of_end "expected ';' after statement, found " "" rfl
  | unexpectedInExpression found =>
    obtain rfl : found = .eof := h
    exact isIncomplete_of_end "unexpected " " in expression" (String.append_assoc ..)
  | misplacedLabel label found =>
    obtain rfl : found = .eof := h
    exact isIncomplete_of_end ("label " ++ label ++ " must precede a loop or block, found ") "" rfl
  | _ => exact h.elim

end ParseError

namespace Parser

/-! ## Longer streams -/

variable {more : List Token} {eof : Position} {s : Stream}

/-- A stream whose tokens are followed by `more`, in a text that ends at `eof`. -/
def Stream.extend (s : Stream) (more : List Token) (eof : Position) : Stream :=
  { s with tokens := s.tokens ++ more, eof := eof }

@[simp] theorem Stream.size_extend (s : Stream) (more : List Token) (eof : Position) :
    (s.extend more eof).size = s.size + more.length := List.length_append

/-- The result rests on the end of the text: an error that speaks of it, or a success with no token left. -/
def AtEnd {α : Type} {n : Nat} : Result α n → Prop
  | .error e => e.cause.AtEnd
  | .ok p => p.rest.tokens = []

inductive Same (more : List Token) (eof : Position) {α : Type} {n n' : Nat} : Result α n → Result α n' → Prop
  | error (e : ParseError) : Same more eof (.error e) (.error e)
  | ok {v : α} {rest : Stream} {h : rest.size < n} {h' : (rest.extend more eof).size < n'} :
    Same more eof (.ok ⟨v, rest, h⟩) (.ok ⟨v, rest.extend more eof, h'⟩)

theorem Same.eq_error {α : Type} {n n' : Nat} {e : ParseError} {b : Result α n'}
    (h : Same more eof (.error e : Result α n) b) : b = .error e := by
  cases h
  rfl

/-- `a` is the result on `s` and `b` that on the longer stream. If tokens are left in `s`, they are the same
    or `a` rests on the end of the text; if none is left, `a` does. -/
def Foreseen (more : List Token) (eof : Position) (s : Stream) {α : Type} {n n' : Nat} (a : Result α n)
    (b : Result α n') : Prop :=
  AtEnd a ∨ s.tokens ≠ [] ∧ Same more eof a b

theorem Foreseen.bindWithin {α β : Type} {n n' m m' : Nat} {a : Result α n} {b : Result α n'}
    {f : Parsed α n → Result β m} {g : Parsed α n' → Result β m'} (hn : n + more.length ≤ n')
    (h : Foreseen more eof s a b)
    (hf : ∀ v rest h h', Foreseen more eof rest (f ⟨v, rest, h⟩) (g ⟨v, rest.extend more eof, h'⟩)) :
    Foreseen more eof s (a >>= f) (b >>= g) := by
  obtain hend | ⟨hs, hsame⟩ := h
  · left
    cases a with
    | error e => exact hend
    | ok p =>
      obtain ⟨v, rest, hrest⟩ := p
      have hlonger : (rest.extend more eof).size < n' := by
        rw [Stream.size_extend]
        omega
      -- What goes on from here has no token left, so it rests on the end as well.
      obtain hnext | ⟨hne, -⟩ := hf v rest hrest hlonger
      · exact hnext
      · exact absurd hend hne
  · cases hsame with
    | error e => exact .inr ⟨hs, .error e⟩
    | @ok v rest h h' =>
      obtain hnext | ⟨-, hnext⟩ := hf v rest h h'
      · exact .inl hnext
      · exact .inr ⟨hs, hnext⟩

section Sequences

variable {α β : Type} {t : Stream} {m m' : Nat}

theorem Foreseen.bind {a : Result α t.size} {b : Result α (t.extend more eof).size}
    {f : Parsed α t.size → Result β m} {g : Parsed α (t.extend more eof).size → Result β m'}
    (h : Foreseen more eof s a b)
    (hf : ∀ v rest h h', Foreseen more eof rest (f ⟨v, rest, h⟩) (g ⟨v, rest.extend more eof, h'⟩)) :
    Foreseen more eof s (a >>= f) (b >>= g) :=
  .bindWithin (Nat.le_of_eq (t.size_extend more eof).symm) h hf

theorem Foreseen.bindOptional {a : Result α (t.size + 1)} {b : Result α ((t.extend more eof).size + 1)}
    {f : Parsed α (t.size + 1) → Result β m} {g : Parsed α ((t.extend more eof).size + 1) → Result β m'}
    (h : Foreseen more eof s a b)
    (hf : ∀ v rest h h', Foreseen more eof rest (f ⟨v, rest, h⟩) (g ⟨v, rest.extend more eof, h'⟩)) :
    Foreseen more eof s (a >>= f) (b >>= g) := by
  refine .bindWithin ?_ h hf
  rw [Stream.size_extend]
  omega

end Sequences

theorem foreseen_pure {α : Type} {n n' : Nat} {v : α} {h : s.size < n} {h' : (s.extend more eof).size < n'} :
    Foreseen more eof s (pure ⟨v, s, h⟩ : Result α n) (pure ⟨v, s.extend more eof, h'⟩ : Result α n') := by
  by_cases hs : s.tokens = []
  · exact .inl hs
  · exact .inr ⟨hs, .ok⟩

theorem Foreseen.after {α : Type} {n n' : Nat} {a : Result α n} {b : Result α n'} (hs : s.tokens ≠ [])
    (rest : Stream) (h : Foreseen more eof rest a b) : Foreseen more eof s a b :=
  h.imp_right fun hsame => ⟨hs, hsame.2⟩

/-! ## Single tokens -/

theorem Stream.empty_or (s : Stream) : (∃ stop last, s = ⟨[], stop, last⟩) ∨ s.tokens ≠ [] := by
  obtain ⟨_ | ⟨t, ts⟩, stop, last⟩ := s
  · exact .inl ⟨stop, last, rfl⟩
  · exact .inr (List.cons_ne_nil t ts)

theorem peek_extend (hs : s.tokens ≠ []) : (s.extend more eof).peek = s.peek := by
  obtain ⟨_ | ⟨t, ts⟩, e, last⟩ := s
  · exact absurd rfl hs
  · rfl

theorem place_extend (hs : s.tokens ≠ []) : (s.extend more eof).place = s.place := by
  obtain ⟨_ | ⟨t, ts⟩, e, last⟩ := s
  · exact absurd rfl hs
  · rfl

theorem foreseen_complain {α : Type} {n n' : Nat} (hs : s.tokens ≠ []) (cause : ParseCause) :
    Foreseen more eof s (complain s cause : Result α n) (complain (s.extend more eof) cause : Result α n') := by
  unfold complain
  rw [place_extend hs]
  exact .inr ⟨hs, .error _⟩

theorem peekSecond_cases (hs : s.tokens ≠ []) (more : List Token) (eof : Position) :
    (∃ t stop last, s = ⟨[t], stop, last⟩) ∨ (s.extend more eof).peekSecond = s.peekSecond := by
  obtain ⟨_ | ⟨t, _ | ⟨t', ts⟩⟩, stop, last⟩ := s
  · exact absurd rfl hs
  · exact .inl ⟨t, stop, last, rfl⟩
  · exact .inr rfl

theorem next?_cases (hs : s.tokens ≠ []) (more : List Token) (eof : Position) :
    ∃ t rest h h', next? s = some ⟨t, rest, h⟩ ∧
      next? (s.extend more eof) = some ⟨t, rest.extend more eof, h'⟩ := by
  obtain ⟨_ | ⟨t, ts⟩, e, last⟩ := s
  · exact absurd rfl hs
  · exact ⟨_, _, _, _, rfl, rfl⟩

theorem accept_cases (wanted : Lexeme) (s : Stream) (more : List Token) (eof : Position) :
    (∃ stop last, s = ⟨[], stop, last⟩) ∨
      s.tokens ≠ [] ∧
        (accept wanted s = none ∧ accept wanted (s.extend more eof) = none ∨
          ∃ t rest h h', accept wanted s = some ⟨t, rest, h⟩ ∧
            accept wanted (s.extend more eof) = some ⟨t, rest.extend more eof, h'⟩) := by
  refine s.empty_or.imp_right fun hs => ⟨hs, ?_⟩
  obtain ⟨t, rest, h, h', hnext, hnext'⟩ := next?_cases hs more eof
  simp only [accept, hnext, hnext']
  by_cases hwanted : t.lexeme = wanted
  · rw [if_pos hwanted, if_pos hwanted]
    exact .inr ⟨t, rest, h, h', rfl, rfl⟩
  · rw [if_neg hwanted, if_neg hwanted]
    exact .inl ⟨rfl, rfl⟩

theorem foreseen_expect (wanted : Lexeme) (s : Stream) :
    Foreseen more eof s (expect wanted s) (expect wanted (s.extend more eof)) := by
  unfold expect
  obtain ⟨stop, last, rfl⟩ | ⟨hs, ⟨hnone, hnone'⟩ | ⟨t, rest, h, h', hsome, hsome'⟩⟩ :=
    accept_cases wanted s more eof
  · exact .inl rfl
  · rw [hnone, hnone', peek_extend hs]
    exact foreseen_complain hs _
  · rw [hsome, hsome']
    exact .inr ⟨hs, .ok⟩

theorem foreseen_expectName (role : String) (s : Stream) :
    Foreseen more eof s (expectName role s) (expectName role (s.extend more eof)) := by
  obtain ⟨_ | ⟨⟨lexeme, start, stop⟩, ts⟩, e, last⟩ := s
  · exact .inl rfl
  · cases lexeme with
    | ident name => exact .inr ⟨List.cons_ne_nil _ _, .ok⟩
    | _ => exact .inr ⟨List.cons_ne_nil _ _, .error _⟩

/-! ## Expressions -/

structure Shorter.Foreseen {k k' : Nat} (more : List Token) (eof : Position) (r : Shorter k)
    (r' : Shorter k') : Prop where
  expr : ∀ s h h', Parser.Foreseen more eof s (r.expr s h) (r'.expr (s.extend more eof) h')
  binary : ∀ min s h h',
    Parser.Foreseen more eof s (r.binary min s h) (r'.binary min (s.extend more eof) h')
  operators : ∀ min start left s h h',
    Parser.Foreseen more eof s (r.operators min start left s h)
      (r'.operators min start left (s.extend more eof) h')
  suffixes : ∀ start e s h h',
    Parser.Foreseen more eof s (r.suffixes start e s h) (r'.suffixes start e (s.extend more eof) h')
  exprs : ∀ closing s h h',
    Parser.Foreseen more eof s (r.exprs closing s h) (r'.exprs closing (s.extend more eof) h')
  names : ∀ s h h', Parser.Foreseen more eof s (r.names s h) (r'.names (s.extend more eof) h')
  stmts : ∀ opening s h h',
    Parser.Foreseen more eof s (r.stmts opening s h) (r'.stmts opening (s.extend more eof) h')
  clauses : ∀ s h h', Parser.Foreseen more eof s (r.clauses s h) (r'.clauses (s.extend more eof) h')

section Constructs

variable {k k' : Nat} {r : Shorter k} {r' : Shorter k'} (hr : r.Foreseen more eof r')
include hr

theorem foreseen_block (s : Stream) (h : s.size ≤ k) (h' : (s.extend more eof).size ≤ k') :
    Foreseen more eof s (block r s h) (block r' (s.extend more eof) h') := by
  unfold block
  refine (foreseen_expect _ s).bind fun opening s1 h1 h1' => ?_
  refine (hr.stmts _ s1 _ _).bindOptional fun body s2 h2 h2' => ?_
  exact (foreseen_expect _ s2).bind fun _ s3 h3 h3' => foreseen_pure

theorem foreseen_names (s : Stream) (h : s.size ≤ k) (h' : (s.extend more eof).size ≤ k') :
    Foreseen more eof s (names r s h) (names r' (s.extend more eof) h') := by
  obtain ⟨stop, last, rfl⟩ | hs := s.empty_or
  · exact .inl rfl
  unfold names
  rw [peek_extend hs]
  by_cases hclosing : s.peek = mark .rparen
  · rw [if_pos hclosing, if_pos hclosing]
    exact foreseen_pure
  rw [if_neg hclosing, if_neg hclosing]
  refine (foreseen_expectName _ _).bind fun name s1 h1 h1' => ?_
  dsimp only
  obtain ⟨stop, last, rfl⟩ | ⟨hs, ⟨hnone, hnone'⟩ | ⟨t, s2, h2, h2', hsome, hsome'⟩⟩ :=
    accept_cases (mark .comma) s1 more eof
  · exact .inl rfl
  · rw [hnone, hnone']
    exact foreseen_pure
  · rw [hsome, hsome']
    refine .after hs s2 ?_
    exact (hr.names s2 _ _).bindOptional fun rest s3 h3 h3' => foreseen_pure

theorem foreseen_params (s : Stream) (h : s.size ≤ k) (h' : (s.extend more eof).size ≤ k') :
    Foreseen more eof s (params r s h) (params r' (s.extend more eof) h') := by
  unfold params
  obtain ⟨stop, last, rfl⟩ | ⟨hs, ⟨hnone, hnone'⟩ | ⟨t, s1, h1, h1', hsome, hsome'⟩⟩ :=
    accept_cases (mark .lparen) s more eof
  · exact .inl rfl
  · rw [hnone, hnone']
    exact foreseen_pure
  · rw [hsome, hsome']
    refine .after hs s1 ?_
    refine (hr.names s1 _ _).bindOptional fun list s2 h2 h2' => ?_
    exact (foreseen_expect _ s2).bind fun _ s3 h3 h3' => foreseen_pure

omit hr in
theorem foreseen_intLiteral (hs : s.tokens ≠ []) (t : Token) (s1 : Stream) (digits : String) :
    Foreseen more eof s (intLiteral t s1 digits) (intLiteral t (s1.extend more eof) digits) := by
  unfold intLiteral
  cases Number.readInt64? digits with
  | none => exact .inr ⟨hs, .error _⟩
  | some n => exact .inr ⟨hs, .ok⟩

omit hr in
theorem foreseen_floatLiteral (hs : s.tokens ≠ []) (t : Token) (s1 : Stream) (digits : String) :
    Foreseen more eof s (floatLiteral t s1 digits) (floatLiteral t (s1.extend more eof) digits) := by
  unfold floatLiteral
  cases Number.readFloat? digits with
  | none => exact .inr ⟨hs, .error _⟩
  | some x => exact .inr ⟨hs, .ok⟩

theorem foreseen_primary (s : Stream) (h : s.size ≤ k) (h' : (s.extend more eof).size ≤ k') :
    Foreseen more eof s (primary r s h) (primary r' (s.extend more eof) h') := by
  obtain ⟨stop, last, rfl⟩ | hs := s.empty_or
  · exact .inl rfl
  obtain ⟨⟨lexeme, start, stop⟩, s1, h1, h1', hnext, hnext'⟩ := next?_cases hs more eof
  unfold primary
  rw [hnext, hnext']
  cases lexeme
  case int digits => exact (foreseen_intLiteral hs _ s1 digits).bindOptional fun e s2 h2 h2' => foreseen_pure
  case float digits => exact (foreseen_floatLiteral hs _ s1 digits).bindOptional fun e s2 h2 h2' => foreseen_pure
  case string contents => exact .inr ⟨hs, .ok⟩
  case ident name => exact .inr ⟨hs, .ok⟩
  case keyword word =>
    cases word
    case undefWord => exact .inr ⟨hs, .ok⟩
    case subWord =>
      refine .after hs s1 ?_
      refine (foreseen_params hr s1 _ _).bindOptional fun list s2 h2 h2' => ?_
      exact (foreseen_block hr s2 _ _).bind fun body s3 h3 h3' => foreseen_pure
    all_goals exact foreseen_complain hs _
  case punct mark =>
    cases mark
    case lparen =>
      refine .after hs s1 ?_
      refine (hr.expr s1 _ _).bind fun e s2 h2 h2' => ?_
      exact (foreseen_expect _ s2).bind fun _ s3 h3 h3' => foreseen_pure
    case lbracket =>
      refine .after hs s1 ?_
      refine (hr.exprs _ s1 _ _).bindOptional fun elements s2 h2 h2' => ?_
      exact (foreseen_expect _ s2).bind fun _ s3 h3 h3' => foreseen_pure
    all_goals exact foreseen_complain hs _
  case eof => exact foreseen_complain hs _

theorem foreseen_arguments (s : Stream) (h : s.size ≤ k) (h' : (s.extend more eof).size ≤ k') :
    Foreseen more eof s (arguments r s h) (arguments r' (s.extend more eof) h') := by
  unfold arguments
  refine (foreseen_expect _ s).bind fun _ s1 h1 h1' => ?_
  refine (hr.exprs _ s1 _ _).bindOptional fun list s2 h2 h2' => ?_
  exact (foreseen_expect _ s2).bind fun _ s3 h3 h3' => foreseen_pure

theorem foreseen_suffixes (start : Position) (e : Expr) (s : Stream) (h : s.size ≤ k)
    (h' : (s.extend more eof).size ≤ k') :
    Foreseen more eof s (suffixes r start e s h) (suffixes r' start e (s.extend more eof) h') := by
  unfold suffixes
  obtain ⟨stop, last, rfl⟩ | ⟨hs, hcases⟩ := accept_cases (mark .lbracket) s more eof
  · exact .inl rfl
  rw [peek_extend hs]
  by_cases hopening : s.peek = mark .lparen
  · rw [if_pos hopening, if_pos hopening]
    refine (foreseen_arguments hr s _ _).bind fun args s1 h1 h1' => ?_
    exact (hr.suffixes _ _ s1 _ _).bindOptional fun whole s2 h2 h2' => foreseen_pure
  rw [if_neg hopening, if_neg hopening]
  obtain ⟨hnone, hnone'⟩ | ⟨t, s1, h1, h1', hsome, hsome'⟩ := hcases
  · rw [hnone, hnone']
    exact foreseen_pure
  · rw [hsome, hsome']
    refine .after hs s1 ?_
    refine (hr.expr s1 _ _).bind fun index s2 h2 h2' => ?_
    refine (foreseen_expect _ s2).bind fun _ s3 h3 h3' => ?_
    exact (hr.suffixes _ _ s3 _ _).bindOptional fun whole s4 h4 h4' => foreseen_pure

theorem foreseen_suffixed (s : Stream) (h : s.size ≤ k) (h' : (s.extend more eof).size ≤ k') :
    Foreseen more eof s (suffixed r s h) (suffixed r' (s.extend more eof) h') := by
  obtain ⟨stop, last, rfl⟩ | hs := s.empty_or
  · exact .inl rfl
  unfold suffixed
  rw [place_extend hs]
  refine (foreseen_primary hr s _ _).bind fun e s1 h1 h1' => ?_
  exact (foreseen_suffixes hr _ _ s1 _ _).bindOptional fun whole s2 h2 h2' => foreseen_pure

theorem foreseen_unary (s : Stream) (h : s.size ≤ k) (h' : (s.extend more eof).size ≤ k') :
    Foreseen more eof s (unary r s h) (unary r' (s.extend more eof) h') := by
  obtain ⟨stop, last, rfl⟩ | hs := s.empty_or
  · exact .inl rfl
  obtain ⟨t, s1, h1, h1', hnext, hnext'⟩ := next?_cases hs more eof
  unfold unary
  rw [peek_extend hs, hnext, hnext']
  cases prefixOp? s.peek with
  | none => exact foreseen_suffixed hr s _ _
  | some op =>
    refine .after hs s1 ?_
    exact (hr.binary _ s1 _ _).bind fun operand s2 h2 h2' => foreseen_pure

theorem foreseen_operators (min : Nat) (start : Position) (left : Expr) (s : Stream) (h : s.size ≤ k)
    (h' : (s.extend more eof).size ≤ k') :
    Foreseen more eof s (operators r min start left s h)
      (operators r' min start left (s.extend more eof) h') := by
  obtain ⟨stop, last, rfl⟩ | hs := s.empty_or
  · exact .inl rfl
  obtain ⟨t, s1, h1, h1', hnext, hnext'⟩ := next?_cases hs more eof
  unfold operators
  rw [peek_extend hs, hnext, hnext']
  cases infixLevel? s.peek with
  | none => exact foreseen_pure
  | some found =>
    obtain ⟨level, op⟩ := found
    dsimp only
    by_cases hlevel : level ≤ min
    · rw [if_pos hlevel, if_pos hlevel]
      exact foreseen_pure
    rw [if_neg hlevel, if_neg hlevel]
    refine .after hs s1 ?_
    refine (hr.binary _ s1 _ _).bind fun right s2 h2 h2' => ?_
    exact (hr.operators _ _ _ s2 _ _).bindOptional fun whole s3 h3 h3' => foreseen_pure

theorem foreseen_binary (min : Nat) (s : Stream) (h : s.size ≤ k) (h' : (s.extend more eof).size ≤ k') :
    Foreseen more eof s (binary r min s h) (binary r' min (s.extend more eof) h') := by
  obtain ⟨stop, last, rfl⟩ | hs := s.empty_or
  · exact .inl rfl
  unfold binary
  rw [place_extend hs]
  refine (foreseen_unary hr s _ _).bind fun left s1 h1 h1' => ?_
  exact (foreseen_operators hr _ _ _ s1 _ _).bindOptional fun whole s2 h2 h2' => foreseen_pure

theorem foreseen_declaration (start : Position) (s : Stream) (h : s.size ≤ k)
    (h' : (s.extend more eof).size ≤ k') :
    Foreseen more eof s (declaration r start s h) (declaration r' start (s.extend more eof) h') := by
  unfold declaration
  refine (foreseen_expectName _ s).bind fun name s1 h1 h1' => ?_
  dsimp only
  obtain ⟨stop, last, rfl⟩ | ⟨hs, ⟨hnone, hnone'⟩ | ⟨t, s2, h2, h2', hsome, hsome'⟩⟩ :=
    accept_cases (mark .assign) s1 more eof
  · exact .inl rfl
  · rw [hnone, hnone']
    exact foreseen_pure
  · rw [hsome, hsome']
    refine .after hs s2 ?_
    exact (hr.expr s2 _ _).bind fun value s3 h3 h3' => foreseen_pure

theorem foreseen_expression (s : Stream) (h : s.size ≤ k) (h' : (s.extend more eof).size ≤ k') :
    Foreseen more eof s (expression r s h) (expression r' (s.extend more eof) h') := by
  unfold expression
  obtain ⟨stop, last, rfl⟩ | ⟨hs, ⟨hnone, hnone'⟩ | ⟨t, s1, h1, h1', hsome, hsome'⟩⟩ :=
    accept_cases (word .myWord) s more eof
  · exact .inl rfl
  · rw [hnone, hnone', place_extend hs]
    refine (foreseen_binary hr 0 s _ _).bind fun left s1 h1 h1' => ?_
    dsimp only
    obtain ⟨stop, last, rfl⟩ | hs1 := s1.empty_or
    · exact .inl rfl
    obtain ⟨t, s2, h2, h2', hnext, hnext'⟩ := next?_cases hs1 more eof
    rw [peek_extend hs1, hnext, hnext']
    cases assignOp? s1.peek with
    | none => exact foreseen_pure
    | some op =>
      dsimp only
      by_cases htarget : isTarget left = true
      · rw [if_pos htarget, if_pos htarget]
        refine .after hs1 s2 ?_
        exact (hr.expr s2 _ _).bind fun right s3 h3 h3' => foreseen_pure
      · rw [if_neg htarget, if_neg htarget]
        exact foreseen_complain hs1 _
  · rw [hsome, hsome', place_extend hs]
    refine .after hs s1 ?_
    exact (foreseen_declaration hr _ s1 _ _).bind fun e s2 h2 h2' => foreseen_pure

theorem foreseen_exprs (closing : Punct) (s : Stream) (h : s.size ≤ k)
    (h' : (s.extend more eof).size ≤ k') :
    Foreseen more eof s (exprs r closing s h) (exprs r' closing (s.extend more eof) h') := by
  obtain ⟨stop, last, rfl⟩ | hs := s.empty_or
  · exact .inl rfl
  unfold exprs
  rw [peek_extend hs]
  by_cases hclosing : s.peek = mark closing
  · rw [if_pos hclosing, if_pos hclosing]
    exact foreseen_pure
  rw [if_neg hclosing, if_neg hclosing]
  refine (foreseen_expression hr s _ _).bind fun e s1 h1 h1' => ?_
  dsimp only
  obtain ⟨stop, last, rfl⟩ | ⟨hs1, ⟨hnone, hnone'⟩ | ⟨t, s2, h2, h2', hsome, hsome'⟩⟩ :=
    accept_cases (mark .comma) s1 more eof
  · exact .inl rfl
  · rw [hnone, hnone']
    exact foreseen_pure
  · rw [hsome, hsome']
    refine .after hs1 s2 ?_
    exact (hr.exprs _ s2 _ _).bindOptional fun rest s3 h3 h3' => foreseen_pure

/-! ## Statements -/

theorem foreseen_parenthesised (s : Stream) (h : s.size ≤ k) (h' : (s.extend more eof).size ≤ k') :
    Foreseen more eof s (parenthesised r s h) (parenthesised r' (s.extend more eof) h') := by
  unfold parenthesised
  refine (foreseen_expect _ s).bind fun _ s1 h1 h1' => ?_
  refine (hr.expr s1 _ _).bind fun e s2 h2 h2' => ?_
  exact (foreseen_expect _ s2).bind fun _ s3 h3 h3' => foreseen_pure

theorem foreseen_bareBlock (label : Option Name) (start : Position) (s : Stream) (h : s.size ≤ k)
    (h' : (s.extend more eof).size ≤ k') :
    Foreseen more eof s (bareBlock r label start s h) (bareBlock r' label start (s.extend more eof) h') := by
  unfold bareBlock
  exact (foreseen_block hr s _ _).bind fun body s1 h1 h1' => foreseen_pure

theorem foreseen_whileTail (label : Option Name) (negate : Bool) (start : Position) (s : Stream)
    (h : s.size ≤ k) (h' : (s.extend more eof).size ≤ k') :
    Foreseen more eof s (whileTail r label negate start s h)
      (whileTail r' label negate start (s.extend more eof) h') := by
  unfold whileTail
  refine (foreseen_parenthesised hr s _ _).bind fun test s1 h1 h1' => ?_
  exact (foreseen_block hr s1 _ _).bind fun body s2 h2 h2' => foreseen_pure

theorem foreseen_foreachTail (label : Option Name) (start : Position) (s : Stream) (h : s.size ≤ k)
    (h' : (s.extend more eof).size ≤ k') :
    Foreseen more eof s (foreachTail r label start s h)
      (foreachTail r' label start (s.extend more eof) h') := by
  unfold foreachTail
  refine (foreseen_expect _ s).bind fun _ s1 h1 h1' => ?_
  refine (foreseen_expectName _ s1).bind fun item s2 h2 h2' => ?_
  refine (foreseen_parenthesised hr s2 _ _).bind fun iterable s3 h3 h3' => ?_
  exact (foreseen_block hr s3 _ _).bind fun body s4 h4 h4' => foreseen_pure

theorem foreseen_headerPart (closing : Punct) (s : Stream) (h : s.size ≤ k)
    (h' : (s.extend more eof).size ≤ k') :
    Foreseen more eof s (headerPart r closing s h) (headerPart r' closing (s.extend more eof) h') := by
  obtain ⟨stop, last, rfl⟩ | hs := s.empty_or
  · exact .inl rfl
  unfold headerPart
  rw [peek_extend hs]
  by_cases hclosing : s.peek = mark closing
  · rw [if_pos hclosing, if_pos hclosing]
    exact (foreseen_expect _ s).bind fun _ s1 h1 h1' => foreseen_pure
  rw [if_neg hclosing, if_neg hclosing]
  refine (foreseen_expression hr s _ _).bind fun e s1 h1 h1' => ?_
  exact (foreseen_expect _ s1).bind fun _ s2 h2 h2' => foreseen_pure

theorem foreseen_forTail (label : Option Name) (start : Position) (s : Stream) (h : s.size ≤ k)
    (h' : (s.extend more eof).size ≤ k') :
    Foreseen more eof s (forTail r label start s h) (forTail r' label start (s.extend more eof) h') := by
  obtain ⟨stop, last, rfl⟩ | hs := s.empty_or
  · exact .inl rfl
  unfold forTail
  rw [peek_extend hs]
  by_cases hword : s.peek = word .myWord
  · rw [if_pos hword, if_pos hword]
    exact foreseen_foreachTail hr label start s _ _
  rw [if_neg hword, if_neg hword]
  refine (foreseen_expect _ s).bind fun _ s1 h1 h1' => ?_
  refine (foreseen_headerPart hr _ s1 _ _).bind fun init s2 h2 h2' => ?_
  refine (foreseen_headerPart hr _ s2 _ _).bind fun test s3 h3 h3' => ?_
  refine (foreseen_headerPart hr _ s3 _ _).bind fun step s4 h4 h4' => ?_
  exact (foreseen_block hr s4 _ _).bind fun body s5 h5 h5' => foreseen_pure

theorem loop?_cases (label : Option Name) (start : Position) (hs : s.tokens ≠ []) (h : s.size ≤ k)
    (h' : (s.extend more eof).size ≤ k') :
    (loop? r label start s h = none ∧ loop? r' label start (s.extend more eof) h' = none) ∨
      ∃ a b, loop? r label start s h = some a ∧ loop? r' label start (s.extend more eof) h' = some b ∧
        Foreseen more eof s a b := by
  obtain ⟨t, s1, h1, h1', hnext, hnext'⟩ := next?_cases hs more eof
  unfold loop?
  rw [peek_extend hs, hnext, hnext']
  cases s.peek
  case punct p =>
    cases p
    case lbrace => exact .inr ⟨_, _, rfl, rfl, foreseen_bareBlock hr label start s _ _⟩
    all_goals exact .inl ⟨rfl, rfl⟩
  case keyword w =>
    cases w
    case whileWord =>
      refine .inr ⟨_, _, rfl, rfl, .after hs s1 ?_⟩
      exact (foreseen_whileTail hr label false start s1 _ _).bind fun e s2 h2 h2' => foreseen_pure
    case untilWord =>
      refine .inr ⟨_, _, rfl, rfl, .after hs s1 ?_⟩
      exact (foreseen_whileTail hr label true start s1 _ _).bind fun e s2 h2 h2' => foreseen_pure
    case forWord =>
      refine .inr ⟨_, _, rfl, rfl, .after hs s1 ?_⟩
      exact (foreseen_forTail hr label start s1 _ _).bind fun e s2 h2 h2' => foreseen_pure
    case foreachWord =>
      refine .inr ⟨_, _, rfl, rfl, .after hs s1 ?_⟩
      exact (foreseen_foreachTail hr label start s1 _ _).bind fun e s2 h2 h2' => foreseen_pure
    all_goals exact .inl ⟨rfl, rfl⟩
  all_goals exact .inl ⟨rfl, rfl⟩

theorem foreseen_labeled (s : Stream) (h : s.size ≤ k) (h' : (s.extend more eof).size ≤ k') :
    Foreseen more eof s (labeled r s h) (labeled r' (s.extend more eof) h') := by
  obtain ⟨stop, last, rfl⟩ | hs := s.empty_or
  · exact .inl rfl
  unfold labeled
  rw [place_extend hs]
  refine (foreseen_expectName _ s).bind fun label s1 h1 h1' => ?_
  refine (foreseen_expect _ s1).bind fun _ s2 h2 h2' => ?_
  dsimp only
  obtain ⟨stop, last, rfl⟩ | hs2 := s2.empty_or
  · exact .inl rfl
  obtain ⟨hnone, hnone'⟩ | ⟨a, b, hsome, hsome', hloop⟩ :=
    loop?_cases hr (some label) s.place hs2 (by omega) (by omega)
  · rw [hnone, hnone', peek_extend hs2]
    exact foreseen_complain hs2 _
  · rw [hsome, hsome']
    exact hloop.bind fun stmt s3 h3 h3' => foreseen_pure

theorem foreseen_clauses (s : Stream) (h : s.size ≤ k) (h' : (s.extend more eof).size ≤ k') :
    Foreseen more eof s (clauses r s h) (clauses r' (s.extend more eof) h') := by
  unfold clauses
  obtain ⟨stop, last, rfl⟩ | ⟨hs, ⟨hnone, hnone'⟩ | ⟨t, s1, h1, h1', hsome, hsome'⟩⟩ :=
    accept_cases (word .elsifWord) s more eof
  · exact .inl rfl
  · rw [hnone, hnone']
    exact foreseen_pure
  · rw [hsome, hsome']
    refine .after hs s1 ?_
    refine (foreseen_parenthesised hr s1 _ _).bind fun test s2 h2 h2' => ?_
    refine (foreseen_block hr s2 _ _).bind fun body s3 h3 h3' => ?_
    exact (hr.clauses s3 _ _).bindOptional fun rest s4 h4 h4' => foreseen_pure

theorem foreseen_otherwise (s : Stream) (h : s.size ≤ k) (h' : (s.extend more eof).size ≤ k') :
    Foreseen more eof s (otherwise r s h) (otherwise r' (s.extend more eof) h') := by
  unfold otherwise
  obtain ⟨stop, last, rfl⟩ | ⟨hs, ⟨hnone, hnone'⟩ | ⟨t, s1, h1, h1', hsome, hsome'⟩⟩ :=
    accept_cases (word .elseWord) s more eof
  · exact .inl rfl
  · rw [hnone, hnone']
    exact foreseen_pure
  · rw [hsome, hsome']
    refine .after hs s1 ?_
    exact (foreseen_block hr s1 _ _).bind fun body s2 h2 h2' => foreseen_pure

theorem foreseen_ifTail (negate : Bool) (start : Position) (s : Stream) (h : s.size ≤ k)
    (h' : (s.extend more eof).size ≤ k') :
    Foreseen more eof s (ifTail r negate start s h) (ifTail r' negate start (s.extend more eof) h') := by
  unfold ifTail
  refine (foreseen_parenthesised hr s _ _).bind fun test s1 h1 h1' => ?_
  refine (foreseen_block hr s1 _ _).bind fun body s2 h2 h2' => ?_
  refine (foreseen_clauses hr s2 _ _).bindOptional fun further s3 h3 h3' => ?_
  exact (foreseen_otherwise hr s3 _ _).bindOptional fun last s4 h4 h4' => foreseen_pure

theorem foreseen_subTail (start : Position) (s : Stream) (h : s.size ≤ k)
    (h' : (s.extend more eof).size ≤ k') :
    Foreseen more eof s (subTail r start s h) (subTail r' start (s.extend more eof) h') := by
  unfold subTail
  refine (foreseen_expectName _ s).bind fun name s1 h1 h1' => ?_
  refine (foreseen_params hr s1 _ _).bindOptional fun list s2 h2 h2' => ?_
  exact (foreseen_block hr s2 _ _).bind fun body s3 h3 h3' => foreseen_pure

omit hr in
theorem foreseen_verbTail (verb : Verb) (start : Position) (s : Stream) :
    Foreseen more eof s (verbTail verb start s) (verbTail verb start (s.extend more eof)) := by
  obtain ⟨stop, last, rfl⟩ | hs := s.empty_or
  · exact .inl rfl
  obtain ⟨t, s1, h1, h1', hnext, hnext'⟩ := next?_cases hs more eof
  unfold verbTail
  rw [peek_extend hs, hnext, hnext']
  cases s.peek
  case ident name => exact .inr ⟨hs, .ok⟩
  all_goals exact .inr ⟨hs, .ok⟩

theorem foreseen_gotoTail (start : Position) (s : Stream) (h : s.size ≤ k)
    (h' : (s.extend more eof).size ≤ k') :
    Foreseen more eof s (gotoTail r start s h) (gotoTail r' start (s.extend more eof) h') := by
  unfold gotoTail
  obtain ⟨stop, last, rfl⟩ | ⟨hs, ⟨hnone, hnone'⟩ | ⟨t, s1, h1, h1', hsome, hsome'⟩⟩ :=
    accept_cases (mark .amp) s more eof
  · exact .inl rfl
  · rw [hnone, hnone']
    exact (foreseen_expectName _ s).bind fun label s1 h1 h1' => foreseen_pure
  · rw [hsome, hsome']
    refine .after hs s1 ?_
    refine (foreseen_expectName _ s1).bind fun name s2 h2 h2' => ?_
    dsimp only
    obtain ⟨stop, last, rfl⟩ | hs2 := s2.empty_or
    · exact .inl rfl
    rw [peek_extend hs2]
    by_cases hopening : s2.peek = mark .lparen
    · rw [if_pos hopening, if_pos hopening]
      exact (foreseen_arguments hr s2 _ _).bind fun args s3 h3 h3' => foreseen_pure
    · rw [if_neg hopening, if_neg hopening]
      exact foreseen_pure

theorem foreseen_returnTail (start : Position) (s : Stream) (h : s.size ≤ k)
    (h' : (s.extend more eof).size ≤ k') :
    Foreseen more eof s (returnTail r start s h) (returnTail r' start (s.extend more eof) h') := by
  obtain ⟨stop, last, rfl⟩ | hs := s.empty_or
  · exact .inl rfl
  unfold returnTail
  rw [peek_extend hs]
  by_cases hends : endsStatement s.peek = true
  · rw [if_pos hends, if_pos hends]
    exact foreseen_pure
  · rw [if_neg hends, if_neg hends]
    exact (foreseen_expression hr s _ _).bind fun e s1 h1 h1' => foreseen_pure

theorem foreseen_simple (s : Stream) (h : s.size ≤ k) (h' : (s.extend more eof).size ≤ k') :
    Foreseen more eof s (simple r s h) (simple r' (s.extend more eof) h') := by
  obtain ⟨stop, last, rfl⟩ | hs := s.empty_or
  · exact .inl rfl
  obtain ⟨t, s1, h1, h1', hnext, hnext'⟩ := next?_cases hs more eof
  unfold simple
  rw [peek_extend hs, hnext, hnext']
  cases s.peek
  case keyword w =>
    cases w
    case lastWord =>
      refine .after hs s1 ?_
      exact (foreseen_verbTail .last _ s1).bindOptional fun stmt s2 h2 h2' => foreseen_pure
    case nextWord =>
      refine .after hs s1 ?_
      exact (foreseen_verbTail .next _ s1).bindOptional fun stmt s2 h2 h2' => foreseen_pure
    case redoWord =>
      refine .after hs s1 ?_
      exact (foreseen_verbTail .redo _ s1).bindOptional fun stmt s2 h2 h2' => foreseen_pure
    case gotoWord =>
      refine .after hs s1 ?_
      exact (foreseen_gotoTail hr _ s1 _ _).bind fun stmt s2 h2 h2' => foreseen_pure
    case returnWord =>
      refine .after hs s1 ?_
      exact (foreseen_returnTail hr _ s1 _ _).bindOptional fun stmt s2 h2 h2' => foreseen_pure
    all_goals exact (foreseen_expression hr s _ _).bind fun e s1 h1 h1' => foreseen_pure
  all_goals exact (foreseen_expression hr s _ _).bind fun e s1 h1 h1' => foreseen_pure

theorem foreseen_modifier (stmt : Stmt) (start : Position) (s : Stream) (h : s.size ≤ k)
    (h' : (s.extend more eof).size ≤ k') :
    Foreseen more eof s (modifier r stmt start s h) (modifier r' stmt start (s.extend more eof) h') := by
  obtain ⟨stop, last, rfl⟩ | hs := s.empty_or
  · exact .inl rfl
  obtain ⟨t, s1, h1, h1', hnext, hnext'⟩ := next?_cases hs more eof
  unfold modifier
  rw [peek_extend hs, hnext, hnext']
  cases s.peek
  case keyword w =>
    cases w
    case ifWord =>
      refine .after hs s1 ?_
      exact (hr.expr s1 _ _).bind fun test s2 h2 h2' => foreseen_pure
    case unlessWord =>
      refine .after hs s1 ?_
      exact (hr.expr s1 _ _).bind fun test s2 h2 h2' => foreseen_pure
    all_goals exact foreseen_pure
  all_goals exact foreseen_pure

omit hr in
theorem foreseen_terminator (s : Stream) :
    Foreseen more eof s (terminator s) (terminator (s.extend more eof)) := by
  unfold terminator
  obtain ⟨stop, last, rfl⟩ | ⟨hs, ⟨hnone, hnone'⟩ | ⟨t, s1, h1, h1', hsome, hsome'⟩⟩ :=
    accept_cases (mark .semicolon) s more eof
  · exact .inl rfl
  · rw [hnone, hnone', peek_extend hs]
    dsimp only
    -- With a token left the end of the text does not show, so the answer hangs on that token alone.
    by_cases hends : (s.peek = mark .rbrace || s.peek = .eof) = true
    · rw [if_pos hends, if_pos hends]
      exact .inr ⟨hs, .ok⟩
    · rw [if_neg hends, if_neg hends]
      exact foreseen_complain hs _
  · rw [hsome, hsome']
    exact .inr ⟨hs, .ok⟩

theorem foreseen_terminated (s : Stream) (h : s.size ≤ k) (h' : (s.extend more eof).size ≤ k') :
    Foreseen more eof s (terminated r s h) (terminated r' (s.extend more eof) h') := by
  obtain ⟨stop, last, rfl⟩ | hs := s.empty_or
  · exact .inl rfl
  unfold terminated
  rw [place_extend hs]
  refine (foreseen_simple hr s _ _).bind fun stmt s1 h1 h1' => ?_
  refine (foreseen_modifier hr _ _ s1 _ _).bindOptional fun whole s2 h2 h2' => ?_
  exact (foreseen_terminator s2).bindOptional fun _ s3 h3 h3' => foreseen_pure

theorem foreseen_plain (s : Stream) (h : s.size ≤ k) (h' : (s.extend more eof).size ≤ k') :
    Foreseen more eof s (plain r s h) (plain r' (s.extend more eof) h') := by
  obtain ⟨stop, last, rfl⟩ | hs := s.empty_or
  · exact .inl rfl
  obtain ⟨t, s1, h1, h1', hnext, hnext'⟩ := next?_cases hs more eof
  have hterminated := foreseen_terminated hr s h h'
  unfold plain
  rw [peek_extend hs, hnext, hnext']
  cases hpeek : s.peek
  case keyword w =>
    cases w
    case subWord =>
      obtain ⟨⟨lexeme, start, stop⟩, _, _, rfl⟩ | hsecond := peekSecond_cases hs more eof
      · -- A lone `sub` is the start of a closure without a body.
        cases hpeek
        exact .inl rfl
      · rw [hsecond]
        cases s.peekSecond
        case ident name =>
          refine .after hs s1 ?_
          exact (foreseen_subTail hr _ s1 _ _).bind fun stmt s2 h2 h2' => foreseen_pure
        all_goals exact hterminated
    case ifWord =>
      refine .after hs s1 ?_
      exact (foreseen_ifTail hr false _ s1 _ _).bind fun stmt s2 h2 h2' => foreseen_pure
    case unlessWord =>
      refine .after hs s1 ?_
      exact (foreseen_ifTail hr true _ s1 _ _).bind fun stmt s2 h2 h2' => foreseen_pure
    all_goals exact hterminated
  all_goals exact hterminated

omit hr in
theorem atLabel_cases (hs : s.tokens ≠ []) (more : List Token) (eof : Position) :
    (∃ name start stop stop' last, s = ⟨[⟨.ident name, start, stop⟩], stop', last⟩) ∨
      atLabel (s.extend more eof) = atLabel s := by
  obtain ⟨⟨lexeme, start, stop⟩, stop', last, rfl⟩ | hsecond := peekSecond_cases hs more eof
  · cases lexeme
    case ident name => exact .inl ⟨name, start, stop, stop', last, rfl⟩
    all_goals exact .inr rfl
  · right
    unfold atLabel
    rw [peek_extend hs, hsecond]

theorem foreseen_statement (s : Stream) (h : s.size ≤ k) (h' : (s.extend more eof).size ≤ k') :
    Foreseen more eof s (statement r s h) (statement r' (s.extend more eof) h') := by
  obtain ⟨stop, last, rfl⟩ | hs := s.empty_or
  · exact .inl rfl
  obtain ⟨name, start, stop, stop', last, rfl⟩ | hlabel := atLabel_cases hs more eof
  · -- A name by itself is a whole statement.
    exact .inl rfl
  unfold statement
  rw [hlabel, place_extend hs]
  by_cases hhere : atLabel s = true
  · rw [if_pos hhere, if_pos hhere]
    exact foreseen_labeled hr s _ _
  rw [if_neg hhere, if_neg hhere]
  obtain ⟨hnone, hnone'⟩ | ⟨a, b, hsome, hsome', hloop⟩ := loop?_cases hr none s.place hs h h'
  · rw [hnone, hnone']
    exact foreseen_plain hr s _ _
  · rw [hsome, hsome']
    exact hloop

theorem foreseen_stmts (opening : Option Position) (s : Stream) (h : s.size ≤ k)
    (h' : (s.extend more eof).size ≤ k') :
    Foreseen more eof s (stmts r opening s h) (stmts r' opening (s.extend more eof) h') := by
  obtain ⟨stop, last, rfl⟩ | ⟨hs, hcases⟩ := accept_cases (mark .semicolon) s more eof
  · -- At the end of the text a module is whole, and a block is not closed.
    cases opening with
    | none => exact .inl rfl
    | some place => exact .inl trivial
  unfold stmts
  rw [peek_extend hs]
  split
  · exact foreseen_pure
  · exact .inl trivial
  · exact foreseen_pure
  · obtain ⟨hnone, hnone'⟩ | ⟨t, s1, h1, h1', hsome, hsome'⟩ := hcases
    · rw [hnone, hnone']
      refine (foreseen_statement hr s _ _).bind fun stmt s1 h1 h1' => ?_
      exact (hr.stmts _ s1 _ _).bindOptional fun rest s2 h2 h2' => foreseen_pure
    · rw [hsome, hsome']
      refine .after hs s1 ?_
      exact (hr.stmts _ s1 _ _).bindOptional fun rest s2 h2 h2' => foreseen_pure

end Constructs

/-! ## The whole text -/

theorem foreseen_parsers (k k' : Nat) : (parsers k).Foreseen more eof (parsers k') := by
  induction k generalizing k' with
  | zero =>
    -- No stream is that short.
    constructor <;> intros <;> exact absurd (by assumption) (Nat.not_lt_zero _)
  | succ k ih =>
    cases k' with
    | zero => constructor <;> intros <;> exact absurd (by assumption) (Nat.not_lt_zero _)
    | succ k' =>
      have hr := ih k'
      exact {
        expr := fun s h h' => foreseen_expression hr s (Nat.le_of_lt_succ h) (Nat.le_of_lt_succ h')
        binary := fun min s h h' =>
          foreseen_binary hr min s (Nat.le_of_lt_succ h) (Nat.le_of_lt_succ h')
        operators := fun min start left s h h' =>
          foreseen_operators hr min start left s (Nat.le_of_lt_succ h) (Nat.le_of_lt_succ h')
        suffixes := fun start e s h h' =>
          foreseen_suffixes hr start e s (Nat.le_of_lt_succ h) (Nat.le_of_lt_succ h')
        exprs := fun closing s h h' =>
          foreseen_exprs hr closing s (Nat.le_of_lt_succ h) (Nat.le_of_lt_succ h')
        names := fun s h h' => foreseen_names hr s (Nat.le_of_lt_succ h) (Nat.le_of_lt_succ h')
        stmts := fun opening s h h' =>
          foreseen_stmts hr opening s (Nat.le_of_lt_succ h) (Nat.le_of_lt_succ h')
        clauses := fun s h h' => foreseen_clauses hr s (Nat.le_of_lt_succ h) (Nat.le_of_lt_succ h') }

theorem Stream.ofTokens_append {l : Lexer.TokenList} (hl : l.tokens ≠ []) (l' : Lexer.TokenList) :
    Stream.ofTokens (l.append l') = (Stream.ofTokens l).extend l'.tokens l'.eof := by
  obtain ⟨_ | ⟨t, ts⟩, stop⟩ := l
  · exact absurd rfl hl
  · rfl

theorem parseTokens_error_iff {l : Lexer.TokenList} (hl : Stream.ofTokens l = s) (e : ParseError) :
    parseTokens l = .error e ↔ stmts (parsers s.size) none s (Nat.le_refl _) = .error e := by
  subst hl
  unfold parseTokens
  cases hbody : stmts (parsers (Stream.ofTokens l).size) none (Stream.ofTokens l) (Nat.le_refl _) with
  | error e' => simp [hbody, Functor.map, Except.map]
  | ok p => simp [hbody, Functor.map, Except.map]

/-- An error that does not speak of the end of the text is there whatever tokens follow. -/
theorem parseTokens_append {l : Lexer.TokenList} {e : ParseError} (h : parseTokens l = .error e)
    (hend : ¬ e.cause.AtEnd) (l' : Lexer.TokenList) : parseTokens (l.append l') = .error e := by
  by_cases hl : l.tokens = []
  · -- The empty text is a module.
    obtain ⟨tokens, stop⟩ := l
    obtain rfl : tokens = [] := hl
    cases h
  rw [parseTokens_error_iff rfl] at h
  rw [parseTokens_error_iff (Stream.ofTokens_append hl l')]
  have hforeseen : Foreseen l'.tokens l'.eof (Stream.ofTokens l) _ _ :=
    foreseen_stmts (foreseen_parsers _ _) none (Stream.ofTokens l) (Nat.le_refl _) (Nat.le_refl _)
  rw [h] at hforeseen
  obtain hrests | ⟨-, hsame⟩ := hforeseen
  · exact absurd hrests hend
  · exact hsame.eq_error

section Texts

variable {origin : String} {cs : List Char} {e : ParseError}

theorem parseModule_of_unreadable {e' : ParseError} (h : Lexer.tokenize cs = .error e') :
    parseModule origin cs = .error { e' with origin := origin } := by
  rw [parseModule, h]

theorem parseModule_of_refused {l : Lexer.TokenList} {e' : ParseError} (h : Lexer.tokenize cs = .ok l)
    (htree : parseTokens l = .error e') : parseModule origin cs = .error { e' with origin := origin } := by
  rw [parseModule, h]
  dsimp only
  rw [htree]

/-- A text is refused because it has no tokens, or because its tokens have no tree. -/
theorem refused_cases (h : parseModule origin cs = .error e) :
    ∃ e', e = { e' with origin := origin } ∧
      (Lexer.tokenize cs = .error e' ∨ ∃ l, Lexer.tokenize cs = .ok l ∧ parseTokens l = .error e') := by
  cases htokens : Lexer.tokenize cs with
  | error e' =>
    rw [parseModule_of_unreadable htokens] at h
    cases h
    exact ⟨e', rfl, .inl rfl⟩
  | ok l =>
    cases htree : parseTokens l with
    | error e' =>
      rw [parseModule_of_refused htokens htree] at h
      cases h
      exact ⟨e', rfl, .inr ⟨l, rfl, htree⟩⟩
    | ok m =>
      rw [parseModule, htokens] at h
      dsimp only at h
      rw [htree] at h
      cases h

theorem parseModule_rename (h : parseModule origin cs = .error e) (origin' : String) :
    parseModule origin' cs = .error { e with origin := origin' } := by
  obtain ⟨e', rfl, htokens | ⟨l, htokens, htree⟩⟩ := refused_cases h
  · rw [parseModule_of_unreadable htokens]
  · rw [parseModule_of_refused htokens htree]

theorem parseModule_append_newline (h : parseModule origin cs = .error e) (hend : ¬ e.cause.AtEnd)
    (more : List Char) : ∃ e', parseModule origin (cs ++ '\n' :: more) = .error e' := by
  obtain ⟨e', rfl, htokens | ⟨l, htokens, htree⟩⟩ := refused_cases h
  · have hclosed : e'.cause ≠ .unterminatedString := fun hopen => hend (hopen ▸ trivial)
    exact ⟨_, parseModule_of_unreadable (Lexer.scan_append_of_error htokens hclosed more)⟩
  · have hlonger := Lexer.scan_append_newline htokens more
    -- The lines that follow may have no tokens of their own; if they do, the parser never comes to them.
    cases hmore : Lexer.scan (l.eof.advance '\n') more with
    | error e'' =>
      rw [hmore] at hlonger
      exact ⟨_, parseModule_of_unreadable hlonger⟩
    | ok l' =>
      rw [hmore] at hlonger
      exact ⟨_, parseModule_of_refused hlonger (parseTokens_append htree hend l')⟩

end Texts

end Parser

end KestrelLang
