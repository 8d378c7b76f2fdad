import KestrelLang.Proofs.Grammar.Steady

/-! # Constructs in other contexts

Every act of the parser is steady. What may follow a construct depends on its kind: after an expression nothing that
goes on with it, after a statement without a semicolon the end of its list, and after a closing mark anything.

* `Inert`, `Ending`, `Act.Closes` — what may follow expressions, statements and statement lists.
* `Below` — the acts that the others call again are steady on short streams.
* `steady_block`, `steady_expression`, `steady_stmts`, … — one step, from short streams to longer ones.
* `below` — they are steady on all streams. -/

namespace KestrelLang.Parser

/-! ## Expressions -/

/-- No operator, call, index or assignment starts with it. -/
def Inert (l : Lexeme) : Prop :=
  infixLevel? l = none ∧ assignOp? l = none ∧ l ≠ mark .lparen ∧ l ≠ mark .lbracket

instance (l : Lexeme) : Decidable (Inert l) := inferInstanceAs (Decidable (_ ∧ _))

/-- A statement without a semicolon can stand before it. -/
def Ending (l : Lexeme) : Prop := l = mark .rbrace ∨ l = .eof

instance (l : Lexeme) : Decidable (Ending l) := inferInstanceAs (Decidable (_ ∨ _))

theorem Ending.inert {l : Lexeme} (h : Ending l) : Inert l := by
  obtain rfl | rfl := h <;> decide

theorem ending_of_closes {opening : Option Position} {l : Lexeme} (h : Act.Closes opening l) : Ending l := by
  cases opening with
  | none => exact .inr h
  | some place => exact .inl h

theorem inert_rparen : Inert (mark .rparen) := by decide

theorem inert_rbracket : Inert (mark .rbracket) := by decide

structure Below (n : Nat) : Prop where
  pos : 0 < n
  expr : ∀ {s}, s.size < n → Steady [.name] Inert s Act.expression
  binary : ∀ {s} min, s.size < n → Steady [.name] Inert s (Act.binary min)
  operators : ∀ {s} min start left, s.size < n → Steady [] Inert s (Act.operators min start left)
  suffixes : ∀ {s} start e, s.size < n → Steady [] Inert s (Act.suffixes start e)
  exprs : ∀ {s} closing, Inert (mark closing) → closing ≠ .comma → s.size < n →
    Steady [] (· = mark closing) s (Act.exprs closing)
  names : ∀ {s}, s.size < n → Steady [] (· = mark .rparen) s Act.names
  stmts : ∀ {s} opening, s.size < n → Steady [] (Act.Closes opening) s (Act.stmts opening)
  clauses : ∀ {s}, s.size < n → Steady [] Ending s Act.clauses

/-! The digits of a number decide alone whether it can be read. -/

theorem intLiteral_cases (digits : String) :
    (∃ tree : Token → Expr, ∀ t, Act.intLiteral t digits = pure (tree t)) ∨
      ∀ t s, ∃ e, Act.intLiteral t digits s = .error e ∧ ¬ e.cause.AtEnd := by
  unfold Act.intLiteral Parser.intLiteral
  cases Number.readInt64? digits with
  | none => exact .inr fun t s => ⟨_, rfl, id⟩
  | some n => exact .inl ⟨fun t => .int n t.span, fun t => rfl⟩

theorem floatLiteral_cases (digits : String) :
    (∃ tree : Token → Expr, ∀ t, Act.floatLiteral t digits = pure (tree t)) ∨
      ∀ t s, ∃ e, Act.floatLiteral t digits s = .error e ∧ ¬ e.cause.AtEnd := by
  unfold Act.floatLiteral Parser.floatLiteral
  cases Number.readFloat? digits with
  | none => exact .inr fun t s => ⟨_, rfl, id⟩
  | some x => exact .inl ⟨fun t => .float x t.span, fun t => rfl⟩

theorem steady_number {s : Stream} {literal : Token → Act Expr} (hs : s.tokens ≠ [])
    (hcases : (∃ tree : Token → Expr, ∀ t, literal t = pure (tree t)) ∨
      ∀ t s, ∃ e, literal t s = .error e ∧ ¬ e.cause.AtEnd) :
    Steady [.name] anything s (do literal (← Act.token)) := by
  obtain ⟨tree, htree⟩ | herror := hcases
  · refine (steady_token _).bindWithin leads_anything fun t s1 _ => ?_
    rw [htree]
    exact steady_pure _
  · obtain ⟨_ | ⟨t, ts⟩, eof, last⟩ := s
    · exact absurd rfl hs
    · obtain ⟨e, he, hend⟩ := herror t ⟨ts, eof, t.stop⟩
      exact steady_error hs he fun _ => hend

section Constructs

variable {n : Nat} {s : Stream} (hn : Below n)
include hn

theorem steady_block (hs : s.size ≤ n) : Steady [.mark .lbrace, .mark .rbrace] anything s Act.block := by
  rw [Act.block_eq]
  refine (steady_mark _).bind hn.pos hs leads_anything fun opening s1 h1 => ?_
  refine (hn.stmts _ h1).bindOptional (Nat.le_of_lt h1) rfl fun body s2 h2 => ?_
  exact (steady_mark _).bind hn.pos h2 leads_anything fun _ s3 h3 => steady_spanned _ _

theorem steady_names (hs : s.size ≤ n) : Steady [] (· = mark .rparen) s Act.names := by
  rw [Act.names_eq]
  refine .until [.name] (Nat.le_refl 1) ?_
  refine (steady_expectName _).bind hn.pos hs leads_anything fun name s1 h1 => ?_
  refine .optional [.mark .comma] nofun nofun (Nat.le_refl 1) ?_ (steady_pure _)
  refine (steady_token _).bind hn.pos (Nat.le_of_lt h1) leads_anything fun _ s2 h2 => ?_
  exact (hn.names h2).bindOptional (Nat.le_of_lt h2) (fun _ h => h) fun rest s3 h3 => steady_pure _

theorem steady_params (hs : s.size ≤ n) : Steady [] (· ≠ mark .lparen) s Act.params := by
  rw [Act.params_eq]
  refine .optional [.mark .lparen, .mark .rparen] nofun (fun h => h rfl) (by decide) ?_ (steady_pure _)
  refine (steady_token _).bind hn.pos hs leads_anything fun _ s1 h1 => ?_
  refine (hn.names h1).bindOptional (Nat.le_of_lt h1) rfl fun list s2 h2 => ?_
  exact (steady_mark _).bind hn.pos h2 leads_anything fun _ s3 h3 => steady_pure _

theorem steady_primary (hs : s.size ≤ n) : Steady [.name] anything s Act.primary := by
  obtain ⟨_ | ⟨⟨lexeme, start, stop⟩, ts⟩, eof, last⟩ := s
  · refine .ofMends ⟨_, rfl⟩ fun more tail eof hmore _ => ?_
    obtain ⟨⟨_, start, stop⟩, rfl, rfl⟩ := List.map_eq_singleton_iff.mp hmore
    exact ⟨_, _, rfl⟩
  have hne : Stream.tokens ⟨⟨lexeme, start, stop⟩ :: ts, eof, last⟩ ≠ [] := List.cons_ne_nil _ _
  rw [Act.primary_eq]
  -- Beside each first lexeme stand the fewest tokens that the construct takes from there.
  cases lexeme with
  | int digits =>
    refine .seeing [.name] hne (Nat.le_refl 1) ?_
    exact steady_number hne (intLiteral_cases digits)
  | float digits =>
    refine .seeing [.name] hne (Nat.le_refl 1) ?_
    exact steady_number hne (floatLiteral_cases digits)
  | string contents =>
    refine .seeing [.name] hne (Nat.le_refl 1) ?_
    exact (steady_token _).bind hn.pos hs leads_anything fun t s1 h1 => steady_pure _
  | ident name =>
    refine .seeing [.name] hne (Nat.le_refl 1) ?_
    exact (steady_token _).bind hn.pos hs leads_anything fun t s1 h1 => steady_pure _
  | keyword w =>
    cases w with
    | undefWord =>
      refine .seeing [.word .undefWord] hne (Nat.le_refl 1) ?_
      exact (steady_token _).bind hn.pos hs leads_anything fun t s1 h1 => steady_pure _
    | subWord =>
      refine .seeing [.word .subWord, .mark .lbrace, .mark .rbrace] hne (by decide) ?_
      refine (steady_token _).bind hn.pos hs leads_anything fun t s1 h1 => ?_
      refine (steady_params hn (Nat.le_of_lt h1)).bindOptional (Nat.le_of_lt h1) nofun fun list s2 h2 => ?_
      exact (steady_block hn h2).bind hn.pos h2 leads_anything fun body s3 h3 => steady_spanned _ _
    | _ => exact .seeing [.mark .comma] hne (Nat.le_refl 1) (steady_complain hne fun _ h => h)
  | punct p =>
    cases p with
    | lparen =>
      refine .seeing [.mark .lparen, .name, .mark .rparen] hne (by decide) ?_
      refine (steady_token _).bind hn.pos hs leads_anything fun _ s1 h1 => ?_
      refine (hn.expr h1).bind hn.pos (Nat.le_of_lt h1) inert_rparen fun e s2 h2 => ?_
      exact (steady_mark _).bind hn.pos (Nat.le_of_lt h2) leads_anything fun _ s3 h3 => steady_pure _
    | lbracket =>
      refine .seeing [.mark .lbracket, .mark .rbracket] hne (by decide) ?_
      refine (steady_token _).bind hn.pos hs leads_anything fun t s1 h1 => ?_
      refine (hn.exprs .rbracket (by decide) nofun h1).bindOptional (Nat.le_of_lt h1) rfl fun elements s2 h2 => ?_
      exact (steady_mark _).bind hn.pos h2 leads_anything fun _ s3 h3 => steady_spanned _ _
    | _ => exact .seeing [.mark .comma] hne (Nat.le_refl 1) (steady_complain hne fun _ h => h)
  | eof => exact .seeing [.mark .comma] hne (Nat.le_refl 1) (steady_complain hne fun _ h => h)

theorem steady_arguments (hs : s.size ≤ n) : Steady [.mark .lparen, .mark .rparen] anything s Act.arguments := by
  rw [Act.arguments_eq]
  refine (steady_mark _).bind hn.pos hs leads_anything fun _ s1 h1 => ?_
  refine (hn.exprs .rparen inert_rparen nofun h1).bindOptional (Nat.le_of_lt h1) rfl fun list s2 h2 => ?_
  exact (steady_mark _).bind hn.pos h2 leads_anything fun _ s3 h3 => steady_pure _

theorem steady_suffixes (start : Position) (e : Expr) (hs : s.size ≤ n) :
    Steady [] Inert s (Act.suffixes start e) := by
  rw [Act.suffixes_eq]
  refine .optional [.mark .lparen, .mark .rparen] nofun (fun h => h.2.2.1 rfl) (by decide) ?_ ?_
  · refine (steady_arguments hn hs).bind hn.pos hs leads_anything fun args s1 h1 => ?_
    exact .spanning (hn.suffixes _ _ h1)
  · refine .optional [.mark .lbracket, .name, .mark .rbracket] nofun (fun h => h.2.2.2 rfl) (by decide) ?_
      (steady_pure e)
    refine (steady_token _).bind hn.pos hs leads_anything fun _ s1 h1 => ?_
    refine (hn.expr h1).bind hn.pos (Nat.le_of_lt h1) inert_rbracket fun index s2 h2 => ?_
    refine (steady_mark _).bind hn.pos (Nat.le_of_lt h2) leads_anything fun _ s3 h3 => ?_
    exact .spanning (hn.suffixes _ _ h3)

theorem steady_suffixed (hs : s.size ≤ n) : Steady [.name] Inert s Act.suffixed := by
  rw [Act.suffixed_eq]
  refine .placed fun start => ?_
  exact (steady_primary hn hs).bind hn.pos hs leads_anything fun e s1 h1 => steady_suffixes hn _ _ (Nat.le_of_lt h1)

theorem steady_unary (hs : s.size ≤ n) : Steady [.name] Inert s Act.unary := by
  rw [Act.unary_eq]
  cases hop : prefixOp? s.peek with
  | none =>
    refine (steady_suffixed hn hs).otherwise fun s' hs' => ?_
    have hnone : prefixOp? s'.peek = none := by
      obtain hs' | hs' := hs'
      · rw [hs', hop]
      · rw [hs']
        rfl
    rw [Act.bind_peek, hnone]
  | some op =>
    have hne : s.tokens ≠ [] := tokens_ne_nil_of_peek fun hend => by
      rw [hend] at hop
      cases hop
    refine .seeing [.mark .minus, .name] hne (by decide) ?_
    rw [hop]
    refine (steady_token _).bind hn.pos hs leads_anything fun t s1 h1 => ?_
    exact (hn.binary _ h1).bind hn.pos (Nat.le_of_lt h1) (fun _ h => h) fun operand s2 h2 => steady_spanned _ _

theorem steady_operators (min : Nat) (start : Position) (left : Expr) (hs : s.size ≤ n) :
    Steady [] Inert s (Act.operators min start left) := by
  rw [Act.operators_eq]
  cases hop : infixLevel? s.peek with
  | none =>
    refine .looking ?_ fun l hl => ?_
    · rw [hop]
      exact steady_pure left
    · rw [hop, hl.1]
  | some found =>
    obtain ⟨level, op⟩ := found
    by_cases hlevel : level ≤ min
    · refine .looking ?_ fun l hl => ?_
      · simp only [hop, if_pos hlevel]
        exact steady_pure left
      · simp only [hop, hl.1, if_pos hlevel]
    · have hne : s.tokens ≠ [] := tokens_ne_nil_of_peek fun hend => by
        rw [hend] at hop
        cases hop
      refine .seeing [.mark .plus, .name] hne (by decide) ?_
      simp only [hop, if_neg hlevel]
      refine (steady_token _).bind hn.pos hs leads_anything fun _ s1 h1 => ?_
      refine (hn.binary _ h1).bind hn.pos (Nat.le_of_lt h1) (fun _ h => h) fun right s2 h2 => ?_
      exact .spanning (hn.operators _ _ _ h2)

theorem steady_binary (min : Nat) (hs : s.size ≤ n) : Steady [.name] Inert s (Act.binary min) := by
  rw [Act.binary_eq]
  refine .placed fun start => ?_
  exact (steady_unary hn hs).bind hn.pos hs (fun _ h => h) fun left s1 h1 =>
    steady_operators hn _ _ _ (Nat.le_of_lt h1)

theorem steady_declaration (start : Position) (hs : s.size ≤ n) :
    Steady [.name] Inert s (Act.declaration start) := by
  rw [Act.declaration_eq]
  refine (steady_expectName _).bind hn.pos hs leads_anything fun name s1 h1 => ?_
  refine .optional [.mark .assign, .name] nofun (fun h => nomatch h.2.1) (by decide) ?_ (steady_spanned _ _)
  refine (steady_token _).bind hn.pos (Nat.le_of_lt h1) leads_anything fun _ s2 h2 => ?_
  exact (hn.expr h2).bind hn.pos (Nat.le_of_lt h2) (fun _ h => h) fun value s3 h3 => steady_spanned _ _

/-- What may follow an operator expression: an assignment, if the expression can be assigned to. -/
theorem steady_assignment (start : Position) (left : Expr) (hs : s.size ≤ n) :
    Steady [] Inert s (do
      match assignOp? (← Act.peek) with
      | some op =>
        if isTarget left then
          let _ ← Act.token
          let right ← Act.expression
          return .assign op left right (← Act.since start)
        else Act.complain fun _ => .invalidAssignmentTarget
      | none => return left) := by
  cases hop : assignOp? s.peek with
  | none =>
    refine .looking ?_ fun l hl => ?_
    · rw [hop]
      exact steady_pure left
    · rw [hop, hl.2.1]
  | some op =>
    have hne : s.tokens ≠ [] := tokens_ne_nil_of_peek fun hend => by
      rw [hend] at hop
      cases hop
    refine .seeing [.mark .assign, .name] hne (by decide) ?_
    rw [hop]
    by_cases htarget : isTarget left = true
    · simp only [if_pos htarget]
      refine (steady_token _).bind hn.pos hs leads_anything fun _ s1 h1 => ?_
      exact (hn.expr h1).bind hn.pos (Nat.le_of_lt h1) (fun _ h => h) fun right s2 h2 => steady_spanned _ _
    · simp only [if_neg htarget]
      exact steady_complain hne fun _ _ => id

theorem steady_expression (hs : s.size ≤ n) : Steady [.name] Inert s Act.expression := by
  rw [Act.expression_eq]
  refine .placed fun start => ?_
  refine .either [.word .myWord, .name] nofun nofun (by decide) ?_ ?_
  · exact (steady_token _).bind hn.pos hs leads_anything fun _ s1 h1 => steady_declaration hn _ (Nat.le_of_lt h1)
  · exact (steady_binary hn 0 hs).bind hn.pos hs (fun _ h => h) fun left s1 h1 =>
      steady_assignment hn _ _ (Nat.le_of_lt h1)

theorem steady_exprs (closing : Punct) (hinert : Inert (mark closing)) (hcomma : closing ≠ .comma)
    (hs : s.size ≤ n) : Steady [] (· = mark closing) s (Act.exprs closing) := by
  rw [Act.exprs_eq]
  refine .until [.name] (Nat.le_refl 1) ?_
  refine (steady_expression hn hs).bind hn.pos hs (fun _ h => h ▸ hinert) fun e s1 h1 => ?_
  refine .optional [.mark .comma] nofun (fun h => hcomma (Lexeme.punct.inj h).symm) (Nat.le_refl 1) ?_ (steady_pure _)
  refine (steady_token _).bind hn.pos (Nat.le_of_lt h1) leads_anything fun _ s2 h2 => ?_
  exact (hn.exprs _ hinert hcomma h2).bindOptional (Nat.le_of_lt h2) (fun _ h => h) fun rest s3 h3 => steady_pure _

/-! ## Statements -/

theorem steady_parenthesised (hs : s.size ≤ n) :
    Steady [.mark .lparen, .name, .mark .rparen] anything s Act.parenthesised := by
  rw [Act.parenthesised_eq]
  refine (steady_mark _).bind hn.pos hs leads_anything fun _ s1 h1 => ?_
  refine (hn.expr h1).bind hn.pos (Nat.le_of_lt h1) inert_rparen fun e s2 h2 => ?_
  exact (steady_mark _).bind hn.pos (Nat.le_of_lt h2) leads_anything fun _ s3 h3 => steady_pure _

theorem steady_bareBlock (label : Option Name) (start : Position) (hs : s.size ≤ n) :
    Steady [.mark .lbrace, .mark .rbrace] anything s (Act.bareBlock label start) := by
  rw [Act.bareBlock_eq]
  exact (steady_block hn hs).bind hn.pos hs leads_anything fun body s1 h1 => steady_spanned _ _

theorem steady_whileTail (label : Option Name) (negate : Bool) (start : Position) (hs : s.size ≤ n) :
    Steady [.mark .lparen, .name, .mark .rparen, .mark .lbrace, .mark .rbrace] anything s
      (Act.whileTail label negate start) := by
  rw [Act.whileTail_eq]
  refine (steady_parenthesised hn hs).bind hn.pos hs leads_anything fun test s1 h1 => ?_
  exact (steady_block hn (Nat.le_of_lt h1)).bind hn.pos (Nat.le_of_lt h1) leads_anything fun body s2 h2 =>
    steady_spanned _ _

theorem steady_foreachTail (label : Option Name) (start : Position) (hs : s.size ≤ n) :
    Steady [.word .myWord, .name, .mark .lparen, .name, .mark .rparen, .mark .lbrace, .mark .rbrace] anything s
      (Act.foreachTail label start) := by
  rw [Act.foreachTail_eq]
  refine (steady_expect (.word .myWord)).bind hn.pos hs leads_anything fun _ s1 h1 => ?_
  refine (steady_expectName _).bind hn.pos (Nat.le_of_lt h1) leads_anything fun item s2 h2 => ?_
  refine (steady_parenthesised hn (Nat.le_of_lt h2)).bind hn.pos (Nat.le_of_lt h2) leads_anything
    fun iterable s3 h3 => ?_
  exact (steady_block hn (Nat.le_of_lt h3)).bind hn.pos (Nat.le_of_lt h3) leads_anything fun body s4 h4 =>
    steady_spanned _ _

theorem steady_headerPart (closing : Punct) (hinert : Inert (mark closing)) (hs : s.size ≤ n) :
    Steady [.mark closing] anything s (Act.headerPart closing) := by
  rw [Act.headerPart_eq]
  refine .wanting (.mark closing) [.name, .mark closing] (by simp) ?_ ?_
  · exact (steady_mark _).bind hn.pos hs leads_anything fun _ s1 h1 => steady_pure _
  · refine (steady_expression hn hs).bind hn.pos hs hinert fun e s1 h1 => ?_
    exact (steady_mark _).bind hn.pos (Nat.le_of_lt h1) leads_anything fun _ s2 h2 => steady_pure _

theorem steady_forTail (label : Option Name) (start : Position) (hs : s.size ≤ n) :
    Steady [.mark .lparen, .mark .semicolon, .mark .semicolon, .mark .rparen, .mark .lbrace, .mark .rbrace] anything s
      (Act.forTail label start) := by
  rw [Act.forTail_eq]
  refine .either [.word .myWord, .name, .mark .lparen, .name, .mark .rparen, .mark .lbrace, .mark .rbrace]
    nofun nofun (by decide) (steady_foreachTail hn label start hs) ?_
  refine (steady_mark _).bind hn.pos hs leads_anything fun _ s1 h1 => ?_
  refine (steady_headerPart hn _ (by decide) (Nat.le_of_lt h1)).bind hn.pos (Nat.le_of_lt h1) leads_anything
    fun init s2 h2 => ?_
  refine (steady_headerPart hn _ (by decide) (Nat.le_of_lt h2)).bind hn.pos (Nat.le_of_lt h2) leads_anything
    fun test s3 h3 => ?_
  refine (steady_headerPart hn _ (by decide) (Nat.le_of_lt h3)).bind hn.pos (Nat.le_of_lt h3) leads_anything
    fun step s4 h4 => ?_
  exact (steady_block hn (Nat.le_of_lt h4)).bind hn.pos (Nat.le_of_lt h4) leads_anything fun body s5 h5 =>
    steady_spanned _ _

theorem steady_loopAt (label : Option Name) (start : Position) {loop : Act Stmt} (hs : s.size ≤ n)
    (h : Act.loopAt label start s.peek = some loop) :
    ∃ words, 2 ≤ words.length ∧ Steady words anything s loop := by
  unfold Act.loopAt at h
  split at h <;> cases h
  · exact ⟨_, (by simp), steady_bareBlock hn label start hs⟩
  · exact ⟨_, (by simp), (steady_token (.word .whileWord)).bind hn.pos hs leads_anything fun _ s1 h1 =>
      steady_whileTail hn label false start (Nat.le_of_lt h1)⟩
  · exact ⟨_, (by simp), (steady_token (.word .untilWord)).bind hn.pos hs leads_anything fun _ s1 h1 =>
      steady_whileTail hn label true start (Nat.le_of_lt h1)⟩
  · exact ⟨_, (by simp), (steady_token (.word .forWord)).bind hn.pos hs leads_anything fun _ s1 h1 =>
      steady_forTail hn label start (Nat.le_of_lt h1)⟩
  · exact ⟨_, (by simp), (steady_token (.word .foreachWord)).bind hn.pos hs leads_anything fun _ s1 h1 =>
      steady_foreachTail hn label start (Nat.le_of_lt h1)⟩

theorem steady_labeled (hs : s.size ≤ n) :
    Steady [.name, .mark .colon, .mark .lbrace, .mark .rbrace] anything s Act.labeled := by
  rw [Act.labeled_eq]
  refine .placed fun start => ?_
  refine (steady_expectName _).bind hn.pos hs leads_anything fun label s1 h1 => ?_
  refine (steady_mark _).bind hn.pos (Nat.le_of_lt h1) leads_anything fun _ s2 h2 => ?_
  cases hloop : Act.loopAt (some label) start s2.peek with
  | some loop =>
    obtain ⟨words, hwords, hsteady⟩ := steady_loopAt hn (some label) start (Nat.le_of_lt h2) hloop
    have hne : s2.tokens ≠ [] := tokens_ne_nil_of_peek fun hend => by
      rw [hend] at hloop
      cases hloop
    refine .seeing words hne (by simpa using hwords) ?_
    rwa [hloop]
  | none =>
    by_cases hs2 : s2.tokens = []
    · refine .ofMends ⟨⟨.misplacedLabel label.text s2.peek, s2.place, ""⟩, ?_⟩ ?_
      · rw [Act.bind_peek, hloop]
        rfl
      · refine ((steady_bareBlock hn (some label) start (Nat.le_of_lt h2)).fresh hs2).congr hs2 fun s' hs' => ?_
        rw [Act.bind_peek, hs']
        rfl
    · refine .seeing [.mark .comma, .mark .comma] hs2 (Nat.le_refl 2) ?_
      rw [hloop]
      exact steady_complain hs2 fun _ h => h

theorem steady_clauses (hs : s.size ≤ n) : Steady [] Ending s Act.clauses := by
  rw [Act.clauses_eq]
  refine .optional [.word .elsifWord, .mark .lparen, .name, .mark .rparen, .mark .lbrace, .mark .rbrace] nofun
    (by decide) (by decide) ?_ (steady_pure _)
  refine (steady_token _).bind hn.pos hs leads_anything fun _ s1 h1 => ?_
  refine (steady_parenthesised hn (Nat.le_of_lt h1)).bind hn.pos (Nat.le_of_lt h1) leads_anything fun test s2 h2 => ?_
  refine (steady_block hn (Nat.le_of_lt h2)).bind hn.pos (Nat.le_of_lt h2) leads_anything fun body s3 h3 => ?_
  exact (hn.clauses h3).bindOptional (Nat.le_of_lt h3) (fun _ h => h) fun rest s4 h4 => steady_pure _

theorem steady_otherwise (hs : s.size ≤ n) : Steady [] Ending s Act.otherwise := by
  rw [Act.otherwise_eq]
  refine .optional [.word .elseWord, .mark .lbrace, .mark .rbrace] nofun (by decide) (by decide) ?_ (steady_pure _)
  exact (steady_token _).bind hn.pos hs leads_anything fun _ s1 h1 =>
    (steady_block hn (Nat.le_of_lt h1)).mono fun _ _ => trivial

theorem steady_ifTail (negate : Bool) (start : Position) (hs : s.size ≤ n) :
    Steady [.mark .lparen, .name, .mark .rparen, .mark .lbrace, .mark .rbrace] Ending s
      (Act.ifTail negate start) := by
  rw [Act.ifTail_eq]
  refine (steady_parenthesised hn hs).bind hn.pos hs leads_anything fun test s1 h1 => ?_
  refine (steady_block hn (Nat.le_of_lt h1)).bind hn.pos (Nat.le_of_lt h1) leads_anything fun body s2 h2 => ?_
  refine (steady_clauses hn (Nat.le_of_lt h2)).bindOptional (Nat.le_of_lt h2) (fun _ h => h) fun more s3 h3 => ?_
  exact (steady_otherwise hn h3).bindOptional h3 (fun _ h => h) fun last s4 h4 => steady_spanned _ _

theorem steady_subTail (start : Position) (hs : s.size ≤ n) :
    Steady [.name, .mark .lbrace, .mark .rbrace] anything s (Act.subTail start) := by
  rw [Act.subTail_eq]
  refine (steady_expectName _).bind hn.pos hs leads_anything fun name s1 h1 => ?_
  refine (steady_params hn (Nat.le_of_lt h1)).bindOptional (Nat.le_of_lt h1) nofun fun list s2 h2 => ?_
  exact (steady_block hn h2).bind hn.pos h2 leads_anything fun body s3 h3 => steady_spanned _ _

omit hn in
theorem steady_verbTail (verb : Verb) (start : Position) : Steady [] Ending s (Act.verbTail verb start) := by
  rw [Act.verbTail_eq]
  cases hpeek : s.peek with
  | ident name =>
    have hne : s.tokens ≠ [] := tokens_ne_nil_of_peek fun hend => by
      rw [hend] at hpeek
      cases hpeek
    refine .seeing [.name] hne (Nat.le_refl 1) ?_
    rw [hpeek]
    exact (steady_token _).bindWithin leads_anything fun t s1 h1 => steady_spanned _ _
  | _ =>
    refine .looking ?_ fun l hl => ?_
    · rw [hpeek]
      exact steady_spanned _ _
    · rw [hpeek]
      obtain rfl | rfl := hl <;> rfl

theorem steady_gotoTail (start : Position) (hs : s.size ≤ n) :
    Steady [.name] Ending s (Act.gotoTail start) := by
  rw [Act.gotoTail_eq]
  refine .either [.mark .amp, .name] nofun nofun (by decide) ?_ ?_
  · refine (steady_token _).bind hn.pos hs leads_anything fun _ s1 h1 => ?_
    refine (steady_expectName _).bind hn.pos (Nat.le_of_lt h1) leads_anything fun name s2 h2 => ?_
    refine .optional [.mark .lparen, .mark .rparen] nofun (by decide) (by decide) ?_ (steady_spanned _ _)
    exact (steady_arguments hn (Nat.le_of_lt h2)).bind hn.pos (Nat.le_of_lt h2) leads_anything fun args s3 h3 =>
      steady_spanned _ _
  · exact (steady_expectName _).bind hn.pos hs leads_anything fun label s1 h1 => steady_spanned _ _

theorem steady_returnTail (start : Position) (hs : s.size ≤ n) : Steady [] Ending s (Act.returnTail start) := by
  rw [Act.returnTail_eq]
  by_cases hends : endsStatement s.peek = true
  · refine .looking ?_ fun l hl => ?_
    · rw [if_pos hends]
      exact steady_spanned _ _
    · have hl' : endsStatement l = true := by obtain rfl | rfl := hl <;> rfl
      rw [if_pos hends, if_pos hl']
  · have hne : s.tokens ≠ [] := tokens_ne_nil_of_peek fun hend => hends (by rw [hend]; rfl)
    refine .seeing [.name] hne (by decide) ?_
    rw [if_neg hends]
    exact (steady_expression hn hs).bind hn.pos hs (fun _ h => h.inert) fun e s1 h1 => steady_spanned _ _

theorem steady_simple (hs : s.size ≤ n) : Steady [.name] Ending s Act.simple := by
  have hexpr : Steady [.name] Ending s (do return Stmt.expr (← Act.expression)) :=
    (steady_expression hn hs).bind hn.pos hs (fun _ h => h.inert) fun e s1 h1 => steady_pure _
  have hne : s.peek ≠ .eof → s.tokens ≠ [] := tokens_ne_nil_of_peek
  rw [Act.simple_eq]
  cases hpeek : s.peek with
  | keyword w =>
    rw [hpeek] at hne
    cases w with
    | lastWord =>
      refine .seeing [.word .lastWord] (hne nofun) (Nat.le_refl 1) ?_
      rw [hpeek]
      exact (steady_token _).bind hn.pos hs leads_anything fun t s1 h1 => steady_verbTail _ _
    | nextWord =>
      refine .seeing [.word .nextWord] (hne nofun) (Nat.le_refl 1) ?_
      rw [hpeek]
      exact (steady_token _).bind hn.pos hs leads_anything fun t s1 h1 => steady_verbTail _ _
    | redoWord =>
      refine .seeing [.word .redoWord] (hne nofun) (Nat.le_refl 1) ?_
      rw [hpeek]
      exact (steady_token _).bind hn.pos hs leads_anything fun t s1 h1 => steady_verbTail _ _
    | gotoWord =>
      refine .seeing [.word .gotoWord, .name] (hne nofun) (by decide) ?_
      rw [hpeek]
      exact (steady_token _).bind hn.pos hs leads_anything fun t s1 h1 => steady_gotoTail hn _ (Nat.le_of_lt h1)
    | returnWord =>
      refine .seeing [.word .returnWord] (hne nofun) (Nat.le_refl 1) ?_
      rw [hpeek]
      exact (steady_token _).bind hn.pos hs leads_anything fun t s1 h1 => steady_returnTail hn _ (Nat.le_of_lt h1)
    | _ =>
      refine hexpr.otherwise fun s' hs' => ?_
      obtain hs' | hs' := hs'
      · rw [Act.bind_peek, hs', hpeek]
      · rw [Act.bind_peek, hs']
        rfl
  | _ =>
    refine hexpr.otherwise fun s' hs' => ?_
    obtain hs' | hs' := hs'
    · rw [Act.bind_peek, hs', hpeek]
    · rw [Act.bind_peek, hs']
      rfl

theorem steady_modifier (stmt : Stmt) (start : Position) (hs : s.size ≤ n) :
    Steady [] Ending s (Act.modifier stmt start) := by
  have hne : s.peek ≠ .eof → s.tokens ≠ [] := tokens_ne_nil_of_peek
  rw [Act.modifier_eq]
  cases hpeek : s.peek with
  | keyword w =>
    rw [hpeek] at hne
    cases w with
    | ifWord =>
      refine .seeing [.word .ifWord, .name] (hne nofun) (by decide) ?_
      rw [hpeek]
      refine (steady_token _).bind hn.pos hs leads_anything fun _ s1 h1 => ?_
      exact (hn.expr h1).bind hn.pos (Nat.le_of_lt h1) (fun _ h => h.inert) fun test s2 h2 => steady_spanned _ _
    | unlessWord =>
      refine .seeing [.word .unlessWord, .name] (hne nofun) (by decide) ?_
      rw [hpeek]
      refine (steady_token _).bind hn.pos hs leads_anything fun _ s1 h1 => ?_
      exact (hn.expr h1).bind hn.pos (Nat.le_of_lt h1) (fun _ h => h.inert) fun test s2 h2 => steady_spanned _ _
    | _ =>
      refine .looking ?_ fun l hl => ?_
      · rw [hpeek]
        exact steady_pure stmt
      · rw [hpeek]
        obtain rfl | rfl := hl <;> rfl
  | _ =>
    refine .looking ?_ fun l hl => ?_
    · rw [hpeek]
      exact steady_pure stmt
    · rw [hpeek]
      obtain rfl | rfl := hl <;> rfl

omit hn in
theorem steady_terminator : Steady [] Ending s Act.terminator := by
  rw [Act.terminator_eq]
  have hne : s.peek ≠ .eof → s.tokens ≠ [] := tokens_ne_nil_of_peek
  by_cases hsemicolon : s.peek = mark .semicolon
  · refine .seeing [.mark .semicolon] (hne (hsemicolon ▸ nofun)) (Nat.le_refl 1) ?_
    rw [if_pos hsemicolon]
    exact (steady_token _).bindWithin leads_anything fun _ s1 _ => steady_pure _
  have hends : ∀ l, Ending l → l ≠ mark .semicolon ∧ (l = mark .rbrace || l = .eof) = true := by
    rintro l (rfl | rfl) <;> decide
  by_cases hend : Ending s.peek
  · refine .looking ?_ fun l hl => ?_
    · rw [if_neg hsemicolon, if_pos (hends _ hend).2]
      exact steady_pure ()
    · rw [if_neg hsemicolon, if_pos (hends _ hend).2, if_neg (hends l hl).1, if_pos (hends l hl).2]
  · have hs : s.tokens ≠ [] := hne fun heof => hend (.inr heof)
    refine .seeing [.mark .comma] hs (Nat.le_refl 1) ?_
    rw [if_neg hsemicolon, if_neg (by simpa [Ending] using hend)]
    exact steady_complain hs fun _ h => h

theorem steady_terminated (hs : s.size ≤ n) : Steady [.name] Ending s Act.terminated := by
  rw [Act.terminated_eq]
  refine .placed fun start => ?_
  refine (steady_simple hn hs).bind hn.pos hs (fun _ h => h) fun stmt s1 h1 => ?_
  refine (steady_modifier hn _ _ (Nat.le_of_lt h1)).bindOptional (Nat.le_of_lt h1) (fun _ h => h) fun whole s2 h2 => ?_
  exact steady_terminator.bindOptional h2 (fun _ h => h) fun _ s3 h3 => steady_pure _

omit hn in
theorem plain_of_name {name : String} (h : s.peek = word .subWord) (hsecond : s.peekSecond = .ident name) :
    Act.plain s = (do Act.subTail (← Act.token).start : Act Stmt) s := by
  rw [Act.plain_eq, Act.bind_peek, Act.bind_peekSecond, h, hsecond]

omit hn in
theorem plain_of_not_name (h : s.peek = word .subWord) (hsecond : ¬ ∃ name, s.peekSecond = .ident name) :
    Act.plain s = Act.terminated s := by
  rw [Act.plain_eq, Act.bind_peek, Act.bind_peekSecond, h]
  cases hpeek : s.peekSecond with
  | ident name => exact absurd ⟨name, hpeek⟩ hsecond
  | _ => rfl

omit hn in
theorem terminated_of_name {name : String} (h : s.peek = word .subWord) (hsecond : s.peekSecond = .ident name) :
    ∃ e, Act.terminated s = .error e := by
  obtain ⟨_ | ⟨⟨lexeme, start, stop⟩, _ | ⟨⟨lexeme', start', stop'⟩, ts⟩⟩, eof, last⟩ := s
  · cases h
  · cases hsecond
  · cases h
    cases hsecond
    exact ⟨_, rfl⟩

theorem steady_plain (hs : s.size ≤ n) : Steady [.name] Ending s Act.plain := by
  have hterminated := steady_terminated hn hs
  have hne : s.peek ≠ .eof → s.tokens ≠ [] := tokens_ne_nil_of_peek
  cases hpeek : s.peek with
  | keyword w =>
    rw [hpeek] at hne
    cases w with
    | ifWord =>
      have hif : Steady [.word .ifWord, .mark .lparen, .name, .mark .rparen, .mark .lbrace, .mark .rbrace] Ending s
          (do Act.ifTail false (← Act.token).start) :=
        (steady_token _).bind hn.pos hs leads_anything fun t s1 h1 => steady_ifTail hn _ _ (Nat.le_of_lt h1)
      refine hif.congr (hne nofun) (by decide) fun s' hs' => ?_
      rw [Act.plain_eq, Act.bind_peek, hs', hpeek]
      rfl
    | unlessWord =>
      have hunless : Steady [.word .unlessWord, .mark .lparen, .name, .mark .rparen, .mark .lbrace, .mark .rbrace]
          Ending s (do Act.ifTail true (← Act.token).start) :=
        (steady_token _).bind hn.pos hs leads_anything fun t s1 h1 => steady_ifTail hn _ _ (Nat.le_of_lt h1)
      refine hunless.congr (hne nofun) (by decide) fun s' hs' => ?_
      rw [Act.plain_eq, Act.bind_peek, hs', hpeek]
      rfl
    | subWord =>
      -- Only here the second token decides: a name after "sub" makes a declaration, and anything else a closure.
      by_cases hname : ∃ name, s.peekSecond = .ident name
      · obtain ⟨name, hname⟩ := hname
        have hsub : Steady [.word .subWord, .name, .mark .lbrace, .mark .rbrace] Ending s
            (do Act.subTail (← Act.token).start) :=
          (steady_token _).bind hn.pos hs leads_anything fun t s1 h1 =>
            (steady_subTail hn _ (Nat.le_of_lt h1)).mono fun _ _ => trivial
        refine hsub.congrSecond (hne nofun) (by decide) (fun s' hs' hsecond => ?_) fun hsingle => ?_
        · obtain hsecond | ⟨hshort, -⟩ := hsecond
          · exact plain_of_name (hs'.trans hpeek) (hsecond.trans hname)
          · exact absurd hshort (by decide)
        · obtain ⟨t, ht⟩ := List.length_eq_one_iff.mp hsingle
          rw [Stream.peekSecond, ht] at hname
          cases hname
      · refine hterminated.congrSecond (hne nofun) (by decide) (fun s' hs' hsecond => ?_) fun hsingle e words _ => ?_
        · refine plain_of_not_name (hs'.trans hpeek) fun ⟨name, hname'⟩ => ?_
          obtain hsecond | ⟨-, hending⟩ := hsecond
          · exact hname ⟨name, hsecond ▸ hname'⟩
          · rw [hname'] at hending
            exact hending.elim nofun nofun
        -- What mends the statement puts no name behind "sub": an expression cannot begin with the two.
        · intro hmends more tail eof hmore htail
          obtain ⟨v, last, hv⟩ := hmends more tail eof hmore htail
          refine ⟨v, last, ?_⟩
          have hpeek' : Stream.peek ⟨s.tokens ++ (more ++ tail), eof, s.last⟩ = word .subWord := by
            rw [peek_mk, upcoming_append (hne nofun), upcoming_tokens, hpeek]
          rw [plain_of_not_name hpeek', hv]
          rintro ⟨name, hsecond⟩
          obtain ⟨e, he⟩ := terminated_of_name hpeek' hsecond
          rw [he] at hv
          cases hv
    | _ =>
      refine hterminated.otherwise fun s' hs' => ?_
      obtain hs' | hs' := hs'
      · rw [Act.plain_eq, Act.bind_peek, hs', hpeek]
        rfl
      · rw [Act.plain_eq, Act.bind_peek, hs']
        rfl
  | _ =>
    refine hterminated.otherwise fun s' hs' => ?_
    obtain hs' | hs' := hs'
    · rw [Act.plain_eq, Act.bind_peek, hs', hpeek]
      rfl
    · rw [Act.plain_eq, Act.bind_peek, hs']
      rfl

omit hn in
theorem atLabel_iff : atLabel s = true ↔ (∃ name, s.peek = .ident name) ∧ s.peekSecond = mark .colon := by
  unfold atLabel
  split
  · simp_all
  · rename_i hnone
    refine iff_of_false Bool.false_ne_true fun ⟨⟨name, hname⟩, hcolon⟩ => hnone name hname hcolon

omit hn in
theorem atLabel_eq_false (h : s.peekSecond ≠ mark .colon) : atLabel s = false :=
  Bool.eq_false_iff.mpr fun hlabel => h (atLabel_iff.mp hlabel).2

omit hn in
theorem statement_of_plain {start : Position} (hlabel : atLabel s = false)
    (hloop : Act.loopAt none start s.peek = none) : (do
      if ← Act.atLabel then Act.labeled
      else
        match Act.loopAt none start (← Act.peek) with
        | some loop => loop
        | none => Act.plain : Act Stmt) s = Act.plain s := by
  rw [Act.bind_atLabel, hlabel, if_neg Bool.false_ne_true, Act.bind_peek, hloop]

omit hn in
theorem plain_of_single_name {name : String} (hsingle : s.tokens.length = 1) (hpeek : s.peek = .ident name) :
    ∃ v, Act.plain s = .ok v := by
  obtain ⟨tokens, eof, last⟩ := s
  obtain ⟨⟨lexeme, start, stop⟩, rfl⟩ := List.length_eq_one_iff.mp hsingle
  cases hpeek
  exact ⟨_, rfl⟩

theorem steady_statement (hs : s.size ≤ n) : Steady [.name] Ending s Act.statement := by
  have hcolon : ¬ Ending (mark .colon) := by decide
  rw [Act.statement_eq]
  refine .placed fun start => ?_
  -- At the end of the text the mending name must not be taken for a label: no colon follows it.
  by_cases hempty : s.tokens = []
  · obtain ⟨tokens, eof, last⟩ := s
    obtain rfl : tokens = [] := hempty
    refine .ofMends ⟨_, rfl⟩ fun more tail eof' hmore htail => ?_
    obtain ⟨v, last', hv⟩ := (steady_plain hn hs).fresh rfl more tail eof' hmore htail
    obtain ⟨⟨lexeme, begin, stop⟩, rfl, rfl⟩ := List.map_eq_singleton_iff.mp hmore
    refine ⟨v, last', (statement_of_plain (atLabel_eq_false fun hsecond => hcolon ?_) rfl).trans hv⟩
    rwa [← hsecond, List.nil_append, List.singleton_append, peekSecond_cons]
  cases hlabel : atLabel s with
  | true =>
    obtain ⟨⟨name, hname⟩, hsecond⟩ := atLabel_iff.mp hlabel
    refine ((steady_labeled hn hs).mono fun _ _ => trivial).congrSecond hempty (by decide)
      (fun s' hs' hsecond' => ?_) fun hsingle => ?_
    · obtain hsecond' | ⟨hshort, -⟩ := hsecond'
      · have hlabel' : atLabel s' = true := atLabel_iff.mpr ⟨⟨name, hs'.trans hname⟩, hsecond'.trans hsecond⟩
        rw [Act.bind_atLabel, if_pos hlabel']
      · exact absurd hshort (by decide)
    · obtain ⟨t, ht⟩ := List.length_eq_one_iff.mp hsingle
      rw [Stream.peekSecond, ht] at hsecond
      cases hsecond
  | false =>
    -- A loop is known by its first token alone, so there the second one does not matter.
    cases hloop : Act.loopAt none start s.peek with
    | some loop =>
      obtain ⟨words, hwords, hsteady⟩ := steady_loopAt hn none start hs hloop
      refine (hsteady.mono fun _ _ => trivial).congr hempty (by simp; omega) fun s' hs' => ?_
      have hlabel' : atLabel s' = false := Bool.eq_false_iff.mpr fun hlabel' => by
        obtain ⟨⟨name, hname⟩, -⟩ := atLabel_iff.mp hlabel'
        rw [← hs', hname] at hloop
        cases hloop
      rw [Act.bind_atLabel, hlabel', if_neg Bool.false_ne_true, Act.bind_peek, hs', hloop]
    | none =>
      refine (steady_plain hn hs).congrSecond hempty (by decide) (fun s' hs' hsecond => ?_)
        fun hsingle e words herror hmends => ?_
      · refine statement_of_plain (Bool.eq_false_iff.mpr fun hlabel' => ?_) (hs' ▸ hloop)
        obtain ⟨⟨name, hname⟩, hsecond'⟩ := atLabel_iff.mp hlabel'
        obtain hsame | ⟨-, hending⟩ := hsecond
        · rw [atLabel_iff.mpr ⟨⟨name, hs' ▸ hname⟩, hsame ▸ hsecond'⟩] at hlabel
          cases hlabel
        · exact hcolon (hsecond' ▸ hending)
      · have hfails : Act.plain s = .error e := (statement_of_plain hlabel hloop).symm.trans herror
        intro more tail eof hmore htail
        obtain ⟨v, last, hv⟩ := hmends more tail eof hmore htail
        have hpeek : Stream.peek ⟨s.tokens ++ (more ++ tail), eof, s.last⟩ = s.peek := by
          rw [peek_mk, upcoming_append hempty, upcoming_tokens]
        refine ⟨v, last, (statement_of_plain (Bool.eq_false_iff.mpr fun hlabel' => ?_) (hpeek ▸ hloop)).trans hv⟩
        obtain ⟨⟨name, hname⟩, -⟩ := atLabel_iff.mp hlabel'
        obtain ⟨v', hv'⟩ := plain_of_single_name hsingle (hpeek ▸ hname)
        rw [hv'] at hfails
        cases hfails

theorem steady_stmts (opening : Option Position) (hs : s.size ≤ n) :
    Steady [] (Act.Closes opening) s (Act.stmts opening) := by
  rw [Act.stmts_eq]
  by_cases hcloses : Act.Closes opening s.peek
  · refine .looking ?_ fun l hl => ?_
    · rw [if_pos hcloses]
      exact steady_pure []
    · rw [if_pos hcloses, if_pos hl]
  by_cases heof : s.peek = .eof
  · by_cases hempty : s.tokens = []
    · refine .ofMends ⟨⟨.unterminatedBlock, opening.getD .zero, ""⟩, ?_⟩ fun more tail eof hmore htail => ?_
      · rw [Act.bind_peek, if_neg hcloses, if_pos heof]
        rfl
      · obtain rfl : more = [] := List.map_eq_nil_iff.mp hmore
        refine ⟨[], s.last, ?_⟩
        rw [hempty, List.nil_append, List.nil_append, Act.bind_peek, peek_mk, if_pos htail]
        rfl
    · refine .seeing [.name] hempty (Nat.le_refl 1) ?_
      rw [if_neg hcloses, if_pos heof]
      exact steady_error hempty rfl fun hproper => absurd heof (peek_ne_eof hempty hproper)
  · have hne : s.tokens ≠ [] := tokens_ne_nil_of_peek heof
    by_cases hsemicolon : s.peek = mark .semicolon
    · refine .seeing [.mark .semicolon] hne (Nat.le_refl 1) ?_
      rw [if_neg hcloses, if_neg heof, if_pos hsemicolon]
      exact (steady_token _).bind hn.pos hs leads_anything fun _ s1 h1 => hn.stmts opening h1
    · refine .seeing [.name] hne (Nat.le_refl 1) ?_
      rw [if_neg hcloses, if_neg heof, if_neg hsemicolon]
      refine (steady_statement hn hs).bind hn.pos hs (fun _ h => ending_of_closes h) fun stmt s1 h1 => ?_
      exact (hn.stmts opening h1).bindOptional (Nat.le_of_lt h1) (fun _ h => h) fun rest s2 h2 => steady_pure _

end Constructs

/-! ## All streams -/

section Nothing

variable {α : Type} {s : Stream} {follow : Lexeme → Prop} {act : Act α} {v : α}

/-! What need not take a token takes none before what follows it. -/

theorem mends_nothing (h : ∀ s, follow s.peek → act s = .ok (v, s)) (hs : s.tokens = []) : Mends [] follow s act := by
  intro more tail eof hmore htail
  obtain rfl : more = [] := List.map_eq_nil_iff.mp hmore
  rw [hs]
  exact ⟨v, s.last, h _ (peek_mk ▸ htail)⟩

theorem steady_nothing (h : ∀ s, follow s.peek → act s = .ok (v, s)) (heof : follow .eof) (hs : s.tokens = []) :
    Steady [] follow s act where
  again hok := by
    have hpeek : s.peek = .eof := by rw [← upcoming_tokens, hs]; rfl
    rw [h s (hpeek ▸ heof)] at hok
    cases hok
    refine ⟨[], .refl s, Nat.le_refl 0, fun more eof hmore => h _ ?_⟩
    rw [List.nil_append, peek_mk]
    exact hmore.elim (fun hsame => hsame ▸ hpeek ▸ heof) id
  mend _ _ _ := ⟨[], mends_nothing h hs⟩
  fresh hs := mends_nothing h hs

theorem suffixes_of_inert {start : Position} {e : Expr} (h : Inert s.peek) :
    Act.suffixes start e s = .ok (e, s) := by
  rw [Act.suffixes_eq, Act.bind_peek, if_neg h.2.2.1, Act.bind_peek, if_neg h.2.2.2]
  rfl

theorem operators_of_inert {min : Nat} {start : Position} {left : Expr} (h : Inert s.peek) :
    Act.operators min start left s = .ok (left, s) := by
  rw [Act.operators_eq, Act.bind_peek, h.1]
  rfl

theorem clauses_of_ending (h : Ending s.peek) : Act.clauses s = .ok ([], s) := by
  have hne : s.peek ≠ word .elsifWord := by
    obtain h | h := h <;> rw [h] <;> nofun
  rw [Act.clauses_eq, Act.bind_peek, if_neg hne]
  rfl

theorem stmts_of_closes {opening : Option Position} (h : Act.Closes opening s.peek) :
    Act.stmts opening s = .ok ([], s) := by
  rw [Act.stmts_eq, Act.bind_peek, if_pos h]
  rfl

theorem names_of_closing (h : s.peek = mark .rparen) : Act.names s = .ok ([], s) := by
  rw [Act.names_eq, Act.bind_peek, if_pos h]
  rfl

theorem exprs_of_closing {closing : Punct} (h : s.peek = mark closing) : Act.exprs closing s = .ok ([], s) := by
  rw [Act.exprs_eq, Act.bind_peek, if_pos h]
  rfl

end Nothing

theorem binary_name {min : Nat} {name : String} {start stop eof last : Position} {tail : List Token}
    (htail : Inert (upcoming tail)) : Act.binary min ⟨⟨.ident name, start, stop⟩ :: tail, eof, last⟩ =
      .ok (.ident name ⟨start, stop⟩, ⟨tail, eof, stop⟩) := by
  have hinert : Inert (Stream.peek ⟨tail, eof, stop⟩) := peek_mk ▸ htail
  have hprimary : Act.primary ⟨⟨.ident name, start, stop⟩ :: tail, eof, last⟩ =
      .ok (.ident name ⟨start, stop⟩, ⟨tail, eof, stop⟩) := rfl
  have hsuffixed : Act.suffixed ⟨⟨.ident name, start, stop⟩ :: tail, eof, last⟩ =
      .ok (.ident name ⟨start, stop⟩, ⟨tail, eof, stop⟩) := by
    rw [Act.suffixed_eq, Act.bind_place, bind_of_ok hprimary, suffixes_of_inert hinert]
  have hunary : Act.unary ⟨⟨.ident name, start, stop⟩ :: tail, eof, last⟩ =
      .ok (.ident name ⟨start, stop⟩, ⟨tail, eof, stop⟩) := by
    rw [Act.unary_eq, Act.bind_peek]
    exact hsuffixed
  rw [Act.binary_eq, Act.bind_place, bind_of_ok hunary, operators_of_inert hinert]

theorem expression_name {name : String} {start stop eof last : Position} {tail : List Token}
    (htail : Inert (upcoming tail)) : Act.expression ⟨⟨.ident name, start, stop⟩ :: tail, eof, last⟩ =
      .ok (.ident name ⟨start, stop⟩, ⟨tail, eof, stop⟩) := by
  have hassign : assignOp? (Stream.peek ⟨tail, eof, stop⟩) = none := peek_mk ▸ htail.2.1
  rw [Act.expression_eq, Act.bind_place, Act.bind_peek, if_neg nofun, bind_of_ok (binary_name htail), Act.bind_peek,
    hassign]
  rfl

theorem mends_name {act : Act Expr} {eof last : Position}
    (h : ∀ start stop eof last tail, Inert (upcoming tail) → act ⟨⟨.ident "x", start, stop⟩ :: tail, eof, last⟩ =
      .ok (.ident "x" ⟨start, stop⟩, ⟨tail, eof, stop⟩)) : Mends [.name] Inert ⟨[], eof, last⟩ act := by
  intro more tail eof' hmore htail
  obtain ⟨⟨lexeme, start, stop⟩, rfl, rfl⟩ := List.map_eq_singleton_iff.mp hmore
  exact ⟨_, _, h start stop eof' last tail htail⟩

theorem below_one : Below 1 where
  pos := Nat.one_pos
  expr := by
    rintro ⟨_ | ⟨t, ts⟩, eof, last⟩ h
    · exact .ofMends ⟨_, rfl⟩ (mends_name fun _ _ _ _ _ => expression_name)
    · exact absurd h (by simp [Stream.size])
  binary := by
    rintro ⟨_ | ⟨t, ts⟩, eof, last⟩ min h
    · exact .ofMends ⟨_, rfl⟩ (mends_name fun _ _ _ _ _ => binary_name)
    · exact absurd h (by simp [Stream.size])
  operators min start left h :=
    steady_nothing (fun s => operators_of_inert) (by decide) (List.length_eq_zero_iff.mp (Nat.lt_one_iff.mp h))
  suffixes start e h :=
    steady_nothing (fun s => suffixes_of_inert) (by decide) (List.length_eq_zero_iff.mp (Nat.lt_one_iff.mp h))
  exprs := by
    rintro ⟨_ | ⟨t, ts⟩, eof, last⟩ closing - - h
    · exact .ofMends ⟨_, rfl⟩ (mends_nothing (fun s => exprs_of_closing) rfl)
    · exact absurd h (by simp [Stream.size])
  names := by
    rintro ⟨_ | ⟨t, ts⟩, eof, last⟩ h
    · exact .ofMends ⟨_, rfl⟩ (mends_nothing (fun s => names_of_closing) rfl)
    · exact absurd h (by simp [Stream.size])
  stmts := by
    rintro ⟨_ | ⟨t, ts⟩, eof, last⟩ opening h
    · cases opening with
      | none => exact steady_nothing (fun s => stmts_of_closes) rfl rfl
      | some place => exact .ofMends ⟨_, rfl⟩ (mends_nothing (fun s => stmts_of_closes) rfl)
    · exact absurd h (by simp [Stream.size])
  clauses h :=
    steady_nothing (fun s => clauses_of_ending) (.inr rfl) (List.length_eq_zero_iff.mp (Nat.lt_one_iff.mp h))

theorem below (n : Nat) : Below (n + 1) := by
  induction n with
  | zero => exact below_one
  | succ n ih =>
    exact {
      pos := Nat.succ_pos _
      expr := fun h => steady_expression ih (Nat.le_of_lt_succ h)
      binary := fun min h => steady_binary ih min (Nat.le_of_lt_succ h)
      operators := fun min start left h => steady_operators ih min start left (Nat.le_of_lt_succ h)
      suffixes := fun start e h => steady_suffixes ih start e (Nat.le_of_lt_succ h)
      exprs := fun closing hinert hcomma h => steady_exprs ih closing hinert hcomma (Nat.le_of_lt_succ h)
      names := fun h => steady_names ih (Nat.le_of_lt_succ h)
      stmts := fun opening h => steady_stmts ih opening (Nat.le_of_lt_succ h)
      clauses := fun h => steady_clauses ih (Nat.le_of_lt_succ h) }

end KestrelLang.Parser
