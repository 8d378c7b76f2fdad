import KestrelLang.Grammar.Parser

/-! # Parsers without bounds

A parser is made of the parsers for shorter streams, and its result carries a proof that the stream became shorter.
Both serve to end the recursion. What a parser does to a stream depends on neither, so here it is an act: a function
of the stream alone, with an equation that names the acts it is made of.

* `Shorter.restrict`, `parsers_of_le` — the bound on the streams does not matter.
* `Act` — what a parser does to a stream; `erase` forgets the proof in a result.
* `Act.block`, `Act.expression`, … — the acts of all parsers.
* `block_eq`, `expression_eq`, … — their equations. -/

namespace KestrelLang.Parser

/-! ## Bounds -/

def Shorter.restrict {k k' : Nat} (r : Shorter k') (hk : k ≤ k') : Shorter k where
  expr s h := r.expr s (Nat.lt_of_lt_of_le h hk)
  binary min s h := r.binary min s (Nat.lt_of_lt_of_le h hk)
  operators min start left s h := r.operators min start left s (Nat.lt_of_lt_of_le h hk)
  suffixes start e s h := r.suffixes start e s (Nat.lt_of_lt_of_le h hk)
  exprs closing s h := r.exprs closing s (Nat.lt_of_lt_of_le h hk)
  names s h := r.names s (Nat.lt_of_lt_of_le h hk)
  stmts opening s h := r.stmts opening s (Nat.lt_of_lt_of_le h hk)
  clauses s h := r.clauses s (Nat.lt_of_lt_of_le h hk)

theorem parsers_succ (k : Nat) : (parsers (k + 1)).restrict (Nat.le_succ k) = parsers k := by
  induction k with
  | zero =>
    -- There is no stream for these parsers.
    rw [parsers]
    unfold Shorter.restrict
    congr <;> (repeat' (funext _)) <;> exact absurd ‹_ < 0› (Nat.not_lt_zero _)
  | succ k ih =>
    -- A construct uses the shorter parsers only on streams within their bound, so it does not see the restriction.
    rw [parsers.eq_2 k, ← ih]
    rfl

theorem parsers_of_le {k k' : Nat} (hk : k ≤ k') : (parsers k').restrict hk = parsers k := by
  induction hk with
  | refl => rfl
  | @step k' hk ih =>
    rw [← ih, ← parsers_succ k']
    rfl

/-! ## Acts -/

/-- What a parser does to a stream: a value and the stream after it, or an error. -/
abbrev Act := StateT Stream (Except ParseError)

/-- A result without the proof that the stream became shorter. -/
def erase {α : Type} {n : Nat} (a : Result α n) : Except ParseError (α × Stream) :=
  a.map fun p => (p.value, p.rest)

def unbounded {α : Type} {n : Stream → Nat}
    (construct : {k : Nat} → Shorter k → (s : Stream) → s.size ≤ k → Result α (n s)) : Act α :=
  fun s => erase (construct (parsers s.size) s (Nat.le_refl _))

namespace Act

/-! Looking at the stream, and single tokens. -/

def peek : Act Lexeme := fun s => .ok (s.peek, s)

def peekSecond : Act Lexeme := fun s => .ok (s.peekSecond, s)

def place : Act Position := fun s => .ok (s.place, s)

def since (start : Position) : Act Span := fun s => .ok (s.since start, s)

def complain {α : Type} (cause : Lexeme → ParseCause) : Act α := fun s => .error ⟨cause s.peek, s.place, ""⟩

def token : Act Token := fun s =>
  match s.tokens with
  | [] => complain .unexpectedInExpression s
  | t :: ts => .ok (t, ⟨ts, s.eof, t.stop⟩)

def expect (wanted : Lexeme) : Act Token := fun s => erase (Parser.expect wanted s)

def expectName (role : String) : Act Name := fun s => erase (Parser.expectName role s)

def atLabel : Act Bool := fun s => .ok (Parser.atLabel s, s)

/-! Expressions. -/

def intLiteral (t : Token) (digits : String) : Act Expr := fun s => erase (Parser.intLiteral t s digits)

def floatLiteral (t : Token) (digits : String) : Act Expr := fun s => erase (Parser.floatLiteral t s digits)

def block : Act Block := unbounded Parser.block

def names : Act (List Name) := unbounded Parser.names

def params : Act (List Name) := unbounded Parser.params

def primary : Act Expr := unbounded Parser.primary

def arguments : Act (List Expr) := unbounded Parser.arguments

def suffixes (start : Position) (e : Expr) : Act Expr := unbounded fun r => Parser.suffixes r start e

def suffixed : Act Expr := unbounded Parser.suffixed

def unary : Act Expr := unbounded Parser.unary

def operators (min : Nat) (start : Position) (left : Expr) : Act Expr :=
  unbounded fun r => Parser.operators r min start left

def binary (min : Nat) : Act Expr := unbounded fun r => Parser.binary r min

def declaration (start : Position) : Act Expr := unbounded fun r => Parser.declaration r start

def expression : Act Expr := unbounded Parser.expression

def exprs (closing : Punct) : Act (List Expr) := unbounded fun r => Parser.exprs r closing

/-! Statements. -/

def parenthesised : Act Expr := unbounded Parser.parenthesised

def bareBlock (label : Option Name) (start : Position) : Act Stmt :=
  unbounded fun r => Parser.bareBlock r label start

def whileTail (label : Option Name) (negate : Bool) (start : Position) : Act Stmt :=
  unbounded fun r => Parser.whileTail r label negate start

def foreachTail (label : Option Name) (start : Position) : Act Stmt :=
  unbounded fun r => Parser.foreachTail r label start

def headerPart (closing : Punct) : Act Expr := unbounded fun r => Parser.headerPart r closing

def forTail (label : Option Name) (start : Position) : Act Stmt :=
  unbounded fun r => Parser.forTail r label start

/-- The loop or block that starts with the given lexeme, if there is one. -/
def loopAt (label : Option Name) (start : Position) : Lexeme → Option (Act Stmt)
  | .punct .lbrace => some (bareBlock label start)
  | .keyword .whileWord => some (do let _ ← token; whileTail label false start)
  | .keyword .untilWord => some (do let _ ← token; whileTail label true start)
  | .keyword .forWord => some (do let _ ← token; forTail label start)
  | .keyword .foreachWord => some (do let _ ← token; foreachTail label start)
  | _ => none

def labeled : Act Stmt := unbounded Parser.labeled

def clauses : Act (List Clause) := unbounded Parser.clauses

def otherwise : Act Block := unbounded Parser.otherwise

def ifTail (negate : Bool) (start : Position) : Act Stmt := unbounded fun r => Parser.ifTail r negate start

def subTail (start : Position) : Act Stmt := unbounded fun r => Parser.subTail r start

def verbTail (verb : Verb) (start : Position) : Act Stmt := fun s => erase (Parser.verbTail verb start s)

def gotoTail (start : Position) : Act Stmt := unbounded fun r => Parser.gotoTail r start

def returnTail (start : Position) : Act Stmt := unbounded fun r => Parser.returnTail r start

def simple : Act Stmt := unbounded Parser.simple

def modifier (stmt : Stmt) (start : Position) : Act Stmt := unbounded fun r => Parser.modifier r stmt start

def terminator : Act Unit := fun s => erase (Parser.terminator s)

def terminated : Act Stmt := unbounded Parser.terminated

def plain : Act Stmt := unbounded Parser.plain

def statement : Act Stmt := unbounded Parser.statement

def stmts (opening : Option Position) : Act (List Stmt) := unbounded fun r => Parser.stmts r opening

end Act

/-! ## From results to acts -/

section Erasing

variable {α β : Type} {n m k : Nat} {s : Stream}

theorem erase_bind {a : Result α n} {f : Parsed α n → Result β m} {x : Act α} {g : α → Act β}
    (ha : erase a = x s) (hf : ∀ v rest h, erase (f ⟨v, rest, h⟩) = g v rest) :
    erase (a >>= f) = (x >>= g) s := by
  show _ = (x s >>= fun p => g p.1 p.2)
  rw [← ha]
  cases a with
  | error e => rfl
  | ok p => exact hf p.value p.rest p.shorter

theorem erase_last {a : Result α n} {f : Parsed α n → Result α m} {x : Act α} (ha : erase a = x s)
    (hf : ∀ v rest h, erase (f ⟨v, rest, h⟩) = .ok (v, rest)) : erase (a >>= f) = x s := by
  rw [← ha]
  cases a with
  | error e => rfl
  | ok p => exact hf p.value p.rest p.shorter

theorem erase_peek {wanted : Lexeme} {a b : Result α n} {x y : Act α} (ha : erase a = x s)
    (hb : erase b = y s) :
    erase (if s.peek = wanted then a else b) = (do if (← Act.peek) = wanted then x else y) s := by
  show _ = (if s.peek = wanted then x else y) s
  by_cases h : s.peek = wanted
  · rw [if_pos h, if_pos h, ha]
  · rw [if_neg h, if_neg h, hb]

theorem accept_of_ne {wanted : Lexeme} (h : s.peek ≠ wanted) : accept wanted s = none := by
  obtain ⟨_ | ⟨t, ts⟩, eof, last⟩ := s
  · rfl
  · exact if_neg h

theorem accept_of_eq {wanted : Lexeme} {t : Token} {ts : List Token} {eof last : Position}
    (h : t.lexeme = wanted) :
    accept wanted ⟨t :: ts, eof, last⟩ = some ⟨t, ⟨ts, eof, t.stop⟩, Nat.lt_succ_self _⟩ :=
  if_pos h

theorem erase_accept (wanted : Lexeme) (hne : wanted ≠ .eof)
    {found : Token → (rest : Stream) → rest.size < s.size → Result α n} {other : Result α n} {x : Token → Act α}
    {y : Act α} (hfound : ∀ t rest h, erase (found t rest h) = x t rest) (hother : erase other = y s) :
    erase (match accept wanted s with | some ⟨t, rest, h⟩ => found t rest h | none => other) =
      (do if (← Act.peek) = wanted then x (← Act.token) else y) s := by
  show _ = (if s.peek = wanted then Act.token >>= x else y) s
  by_cases h : s.peek = wanted
  · rw [if_pos h]
    obtain ⟨_ | ⟨t, ts⟩, eof, last⟩ := s
    · exact absurd h.symm hne
    · rw [accept_of_eq h]
      exact hfound t _ _
  · rw [if_neg h, accept_of_ne h]
    exact hother

theorem erase_optional (wanted : Lexeme) (hne : wanted ≠ .eof)
    {found : Token → (rest : Stream) → rest.size < s.size → Result α n} {other : Result α n} {x : Token → Act α}
    {y : Act α} (hfound : ∀ t rest h, erase (found t rest h) = x t rest) (hother : erase other = y s) :
    erase (match accept wanted s with | none => other | some ⟨t, rest, h⟩ => found t rest h) =
      (do if (← Act.peek) = wanted then x (← Act.token) else y) s := by
  rw [← erase_accept wanted hne hfound hother]
  cases accept wanted s <;> rfl

/-- A construct does the same to a stream whatever its bound, if it uses shorter parsers only within theirs. -/
theorem erase_construct {n : Stream → Nat}
    (construct : {k : Nat} → Shorter k → (s : Stream) → s.size ≤ k → Result α (n s))
    (hconstruct : ∀ {k k' : Nat} (r : Shorter k') (hk : k ≤ k') (s : Stream) (h : s.size ≤ k),
      construct (r.restrict hk) s h = construct r s (Nat.le_trans h hk))
    (h : s.size ≤ k) : erase (construct (parsers k) s h) = unbounded construct s := by
  rw [unbounded, ← parsers_of_le h, hconstruct]

/-! The parsers for shorter streams. -/

theorem erase_expr {h : s.size < k} : erase ((parsers k).expr s h) = Act.expression s := by
  cases k with
  | zero => exact absurd h (Nat.not_lt_zero _)
  | succ k => exact erase_construct Parser.expression (fun _ _ _ _ => rfl) (Nat.le_of_lt_succ h)

theorem erase_binary {min : Nat} {h : s.size < k} : erase ((parsers k).binary min s h) = Act.binary min s := by
  cases k with
  | zero => exact absurd h (Nat.not_lt_zero _)
  | succ k => exact erase_construct (fun r => Parser.binary r min) (fun _ _ _ _ => rfl) (Nat.le_of_lt_succ h)

theorem erase_operators {min : Nat} {start : Position} {left : Expr} {h : s.size < k} :
    erase ((parsers k).operators min start left s h) = Act.operators min start left s := by
  cases k with
  | zero => exact absurd h (Nat.not_lt_zero _)
  | succ k =>
    exact erase_construct (fun r => Parser.operators r min start left) (fun _ _ _ _ => rfl)
      (Nat.le_of_lt_succ h)

theorem erase_suffixes {start : Position} {e : Expr} {h : s.size < k} :
    erase ((parsers k).suffixes start e s h) = Act.suffixes start e s := by
  cases k with
  | zero => exact absurd h (Nat.not_lt_zero _)
  | succ k => exact erase_construct (fun r => Parser.suffixes r start e) (fun _ _ _ _ => rfl) (Nat.le_of_lt_succ h)

theorem erase_exprs {closing : Punct} {h : s.size < k} :
    erase ((parsers k).exprs closing s h) = Act.exprs closing s := by
  cases k with
  | zero => exact absurd h (Nat.not_lt_zero _)
  | succ k => exact erase_construct (fun r => Parser.exprs r closing) (fun _ _ _ _ => rfl) (Nat.le_of_lt_succ h)

theorem erase_names {h : s.size < k} : erase ((parsers k).names s h) = Act.names s := by
  cases k with
  | zero => exact absurd h (Nat.not_lt_zero _)
  | succ k => exact erase_construct Parser.names (fun _ _ _ _ => rfl) (Nat.le_of_lt_succ h)

theorem erase_stmts {opening : Option Position} {h : s.size < k} :
    erase ((parsers k).stmts opening s h) = Act.stmts opening s := by
  cases k with
  | zero => exact absurd h (Nat.not_lt_zero _)
  | succ k => exact erase_construct (fun r => Parser.stmts r opening) (fun _ _ _ _ => rfl) (Nat.le_of_lt_succ h)

theorem erase_clauses {h : s.size < k} : erase ((parsers k).clauses s h) = Act.clauses s := by
  cases k with
  | zero => exact absurd h (Nat.not_lt_zero _)
  | succ k => exact erase_construct Parser.clauses (fun _ _ _ _ => rfl) (Nat.le_of_lt_succ h)

/-! The other constructs. -/

theorem erase_block {h : s.size ≤ k} : erase (block (parsers k) s h) = Act.block s :=
  erase_construct Parser.block (fun _ _ _ _ => rfl) h

theorem erase_params {h : s.size ≤ k} : erase (params (parsers k) s h) = Act.params s :=
  erase_construct Parser.params (fun _ _ _ _ => rfl) h

theorem erase_primary {h : s.size ≤ k} : erase (primary (parsers k) s h) = Act.primary s :=
  erase_construct Parser.primary (fun _ _ _ _ => rfl) h

theorem erase_arguments {h : s.size ≤ k} : erase (arguments (parsers k) s h) = Act.arguments s :=
  erase_construct Parser.arguments (fun _ _ _ _ => rfl) h

theorem erase_suffixed {h : s.size ≤ k} : erase (suffixed (parsers k) s h) = Act.suffixed s :=
  erase_construct Parser.suffixed (fun _ _ _ _ => rfl) h

theorem erase_unary {h : s.size ≤ k} : erase (unary (parsers k) s h) = Act.unary s :=
  erase_construct Parser.unary (fun _ _ _ _ => rfl) h

theorem erase_binaryAt {min : Nat} {h : s.size ≤ k} : erase (binary (parsers k) min s h) = Act.binary min s :=
  erase_construct (fun r => Parser.binary r min) (fun _ _ _ _ => rfl) h

theorem erase_declaration {start : Position} {h : s.size ≤ k} :
    erase (declaration (parsers k) start s h) = Act.declaration start s :=
  erase_construct (fun r => Parser.declaration r start) (fun _ _ _ _ => rfl) h

theorem erase_expression {h : s.size ≤ k} : erase (expression (parsers k) s h) = Act.expression s :=
  erase_construct Parser.expression (fun _ _ _ _ => rfl) h

theorem erase_parenthesised {h : s.size ≤ k} : erase (parenthesised (parsers k) s h) = Act.parenthesised s :=
  erase_construct Parser.parenthesised (fun _ _ _ _ => rfl) h

theorem erase_bareBlock {label : Option Name} {start : Position} {h : s.size ≤ k} :
    erase (bareBlock (parsers k) label start s h) = Act.bareBlock label start s :=
  erase_construct (fun r => Parser.bareBlock r label start) (fun _ _ _ _ => rfl) h

theorem erase_whileTail {label : Option Name} {negate : Bool} {start : Position} {h : s.size ≤ k} :
    erase (whileTail (parsers k) label negate start s h) = Act.whileTail label negate start s :=
  erase_construct (fun r => Parser.whileTail r label negate start) (fun _ _ _ _ => rfl) h

theorem erase_foreachTail {label : Option Name} {start : Position} {h : s.size ≤ k} :
    erase (foreachTail (parsers k) label start s h) = Act.foreachTail label start s :=
  erase_construct (fun r => Parser.foreachTail r label start) (fun _ _ _ _ => rfl) h

theorem erase_headerPart {closing : Punct} {h : s.size ≤ k} :
    erase (headerPart (parsers k) closing s h) = Act.headerPart closing s :=
  erase_construct (fun r => Parser.headerPart r closing) (fun _ _ _ _ => rfl) h

theorem erase_forTail {label : Option Name} {start : Position} {h : s.size ≤ k} :
    erase (forTail (parsers k) label start s h) = Act.forTail label start s :=
  erase_construct (fun r => Parser.forTail r label start) (fun _ _ _ _ => rfl) h

theorem erase_labeled {h : s.size ≤ k} : erase (labeled (parsers k) s h) = Act.labeled s :=
  erase_construct Parser.labeled (fun _ _ _ _ => rfl) h

theorem erase_clausesAt {h : s.size ≤ k} : erase (clauses (parsers k) s h) = Act.clauses s :=
  erase_construct Parser.clauses (fun _ _ _ _ => rfl) h

theorem erase_otherwise {h : s.size ≤ k} : erase (otherwise (parsers k) s h) = Act.otherwise s :=
  erase_construct Parser.otherwise (fun _ _ _ _ => rfl) h

theorem erase_ifTail {negate : Bool} {start : Position} {h : s.size ≤ k} :
    erase (ifTail (parsers k) negate start s h) = Act.ifTail negate start s :=
  erase_construct (fun r => Parser.ifTail r negate start) (fun _ _ _ _ => rfl) h

theorem erase_subTail {start : Position} {h : s.size ≤ k} :
    erase (subTail (parsers k) start s h) = Act.subTail start s :=
  erase_construct (fun r => Parser.subTail r start) (fun _ _ _ _ => rfl) h

theorem erase_gotoTail {start : Position} {h : s.size ≤ k} :
    erase (gotoTail (parsers k) start s h) = Act.gotoTail start s :=
  erase_construct (fun r => Parser.gotoTail r start) (fun _ _ _ _ => rfl) h

theorem erase_returnTail {start : Position} {h : s.size ≤ k} :
    erase (returnTail (parsers k) start s h) = Act.returnTail start s :=
  erase_construct (fun r => Parser.returnTail r start) (fun _ _ _ _ => rfl) h

theorem erase_simple {h : s.size ≤ k} : erase (simple (parsers k) s h) = Act.simple s :=
  erase_construct Parser.simple (fun _ _ _ _ => rfl) h

theorem erase_modifier {stmt : Stmt} {start : Position} {h : s.size ≤ k} :
    erase (modifier (parsers k) stmt start s h) = Act.modifier stmt start s :=
  erase_construct (fun r => Parser.modifier r stmt start) (fun _ _ _ _ => rfl) h

theorem erase_plain {h : s.size ≤ k} : erase (plain (parsers k) s h) = Act.plain s :=
  erase_construct Parser.plain (fun _ _ _ _ => rfl) h

theorem erase_statement {h : s.size ≤ k} : erase (statement (parsers k) s h) = Act.statement s :=
  erase_construct Parser.statement (fun _ _ _ _ => rfl) h

theorem erase_suffixesAt {start : Position} {e : Expr} {h : s.size ≤ k} :
    erase (suffixes (parsers k) start e s h) = Act.suffixes start e s :=
  erase_construct (fun r => Parser.suffixes r start e) (fun _ _ _ _ => rfl) h

theorem erase_operatorsAt {min : Nat} {start : Position} {left : Expr} {h : s.size ≤ k} :
    erase (operators (parsers k) min start left s h) = Act.operators min start left s :=
  erase_construct (fun r => Parser.operators r min start left) (fun _ _ _ _ => rfl) h

end Erasing

namespace Act

section Steps

variable {α : Type}

@[simp] theorem bind_peek (f : Lexeme → Act α) (s : Stream) : (peek >>= f) s = f s.peek s := rfl

@[simp] theorem bind_peekSecond (f : Lexeme → Act α) (s : Stream) : (peekSecond >>= f) s = f s.peekSecond s := rfl

@[simp] theorem bind_place (f : Position → Act α) (s : Stream) : (place >>= f) s = f s.place s := rfl

@[simp] theorem bind_atLabel (f : Bool → Act α) (s : Stream) : (atLabel >>= f) s = f (Parser.atLabel s) s := rfl

@[simp] theorem bind_token (f : Token → Act α) (t : Token) (ts : List Token) (eof last : Position) :
    (token >>= f) ⟨t :: ts, eof, last⟩ = f t ⟨ts, eof, t.stop⟩ := rfl

end Steps

/-! ## Equations of expressions -/

theorem block_eq : block = do
    let opening ← expect (mark .lbrace)
    let body ← stmts (some opening.start)
    let _ ← expect (mark .rbrace)
    return .mk body (← since opening.start) := by
  funext s
  refine erase_bind rfl fun opening s1 h1 => ?_
  refine erase_bind erase_stmts fun body s2 h2 => ?_
  exact erase_bind rfl fun _ s3 h3 => rfl

theorem names_eq : names = do
    if (← peek) = mark .rparen then return []
    else
      let name ← expectName "parameter name"
      if (← peek) = mark .comma then
        let _ ← token
        return name :: (← names)
      else return [name] := by
  funext s
  refine erase_peek rfl (erase_bind rfl fun name s1 h1 => ?_)
  refine erase_accept (mark .comma) nofun (fun _ s2 h2 => ?_) ?_
  · exact erase_bind erase_names fun rest s3 h3 => rfl
  · rfl

theorem params_eq : params = do
    if (← peek) = mark .lparen then
      let _ ← token
      let list ← names
      let _ ← expect (mark .rparen)
      return list
    else return [] := by
  funext s
  refine erase_optional (mark .lparen) nofun (fun _ s1 h1 => ?_) ?_
  · refine erase_bind erase_names fun list s2 h2 => ?_
    exact erase_bind rfl fun _ s3 h3 => rfl
  · rfl

theorem primary_eq : primary = (do
    match ← peek with
    | .int digits => do intLiteral (← token) digits
    | .float digits => do floatLiteral (← token) digits
    | .string contents => return .str contents (← token).span
    | .ident name => return .ident name (← token).span
    | .keyword .undefWord => return .undefined (← token).span
    | .keyword .subWord =>
      let t ← token
      let list ← params
      let body ← block
      return .closure list body (← since t.start)
    | .punct .lparen =>
      let _ ← token
      let e ← expression
      let _ ← expect (mark .rparen)
      return e
    | .punct .lbracket =>
      let t ← token
      let elements ← exprs .rbracket
      let _ ← expect (mark .rbracket)
      return .array elements (← since t.start)
    | _ => complain .unexpectedInExpression) := by
  funext s
  obtain ⟨_ | ⟨⟨lexeme, start, stop⟩, ts⟩, eof, last⟩ := s
  · rfl
  rw [bind_peek]
  dsimp only [primary, unbounded, Parser.primary, next?, Stream.peek]
  cases lexeme with
  | int digits => exact erase_last rfl fun _ _ _ => rfl
  | float digits => exact erase_last rfl fun _ _ _ => rfl
  | keyword w =>
    cases w with
    | subWord =>
      dsimp only
      rw [bind_token]
      refine erase_bind erase_params fun list s2 h2 => ?_
      exact erase_bind erase_block fun body s3 h3 => rfl
    | _ => rfl
  | punct p =>
    cases p with
    | lparen =>
      dsimp only
      rw [bind_token]
      refine erase_bind erase_expr fun e s2 h2 => ?_
      exact erase_bind rfl fun _ s3 h3 => rfl
    | lbracket =>
      dsimp only
      rw [bind_token]
      refine erase_bind erase_exprs fun elements s2 h2 => ?_
      exact erase_bind rfl fun _ s3 h3 => rfl
    | _ => rfl
  | _ => rfl

theorem arguments_eq : arguments = do
    let _ ← expect (mark .lparen)
    let list ← exprs .rparen
    let _ ← expect (mark .rparen)
    return list := by
  funext s
  refine erase_bind rfl fun _ s1 h1 => ?_
  refine erase_bind erase_exprs fun list s2 h2 => ?_
  exact erase_bind rfl fun _ s3 h3 => rfl

theorem suffixes_eq (start : Position) (e : Expr) : suffixes start e = do
    if (← peek) = mark .lparen then
      let args ← arguments
      suffixes start (.call e args (← since start))
    else if (← peek) = mark .lbracket then
      let _ ← token
      let index ← expression
      let _ ← expect (mark .rbracket)
      suffixes start (.index e index (← since start))
    else return e := by
  funext s
  refine erase_peek (erase_bind erase_arguments fun args s1 h1 => ?_) ?_
  · exact erase_last erase_suffixes fun _ _ _ => rfl
  refine erase_optional (mark .lbracket) nofun (fun _ s1 h1 => ?_) ?_
  · refine erase_bind erase_expr fun index s2 h2 => ?_
    refine erase_bind rfl fun _ s3 h3 => ?_
    exact erase_last erase_suffixes fun _ _ _ => rfl
  · rfl

theorem suffixed_eq : suffixed = (do
    let start ← place
    let e ← primary
    suffixes start e) := by
  funext s
  rw [bind_place]
  refine erase_bind erase_primary fun e s1 h1 => ?_
  exact erase_last erase_suffixesAt fun _ _ _ => rfl

theorem unary_eq : unary = (do
    match prefixOp? (← peek) with
    | some op =>
      let t ← token
      let operand ← binary prefixLevel
      return .unary op operand (← since t.start)
    | none => suffixed) := by
  funext s
  obtain ⟨_ | ⟨t, ts⟩, eof, last⟩ := s
  · rfl
  rw [bind_peek]
  dsimp only [unary, unbounded, Parser.unary, next?, Stream.peek]
  cases prefixOp? t.lexeme with
  | none => exact erase_suffixed
  | some op =>
    dsimp only
    rw [bind_token]
    exact erase_bind erase_binary fun operand s2 h2 => rfl

theorem operators_eq (min : Nat) (start : Position) (left : Expr) : operators min start left = do
    match infixLevel? (← peek) with
    | some (level, op) =>
      if level ≤ min then return left
      else
        let _ ← token
        let right ← binary level
        operators min start (.binary op left right (← since start))
    | none => return left := by
  funext s
  obtain ⟨_ | ⟨t, ts⟩, eof, last⟩ := s
  · rfl
  rw [bind_peek]
  dsimp only [operators, unbounded, Parser.operators, next?, Stream.peek]
  cases infixLevel? t.lexeme with
  | none => rfl
  | some found =>
    obtain ⟨level, op⟩ := found
    dsimp only
    by_cases hlevel : level ≤ min
    · rw [if_pos hlevel, if_pos hlevel]
      rfl
    · rw [if_neg hlevel, if_neg hlevel, bind_token]
      refine erase_bind erase_binary fun right s2 h2 => ?_
      exact erase_last erase_operators fun _ _ _ => rfl

theorem binary_eq (min : Nat) : binary min = (do
    let start ← place
    let left ← unary
    operators min start left) := by
  funext s
  rw [bind_place]
  refine erase_bind erase_unary fun left s1 h1 => ?_
  exact erase_last erase_operatorsAt fun _ _ _ => rfl

theorem declaration_eq (start : Position) : declaration start = do
    let name ← expectName "variable name after 'my'"
    if (← peek) = mark .assign then
      let _ ← token
      let value ← expression
      return .assign .declare (.ident name.text name.span) value (← since start)
    else return .assign .declare (.ident name.text name.span) .missing (← since start) := by
  funext s
  refine erase_bind rfl fun name s1 h1 => ?_
  refine erase_accept (mark .assign) nofun (fun _ s2 h2 => ?_) ?_
  · exact erase_bind erase_expr fun value s3 h3 => rfl
  · rfl

theorem expression_eq : expression = do
    let start ← place
    if (← peek) = word .myWord then
      let _ ← token
      declaration start
    else
      let left ← binary 0
      match assignOp? (← peek) with
      | some op =>
        if isTarget left then
          let _ ← token
          let right ← expression
          return .assign op left right (← since start)
        else complain fun _ => .invalidAssignmentTarget
      | none => return left := by
  funext s
  rw [bind_place]
  refine erase_accept (word .myWord) nofun (fun _ s1 h1 => ?_) ?_
  · exact erase_last erase_declaration fun _ _ _ => rfl
  refine erase_bind erase_binaryAt fun left s1 h1 => ?_
  obtain ⟨_ | ⟨t, ts⟩, eof, last⟩ := s1
  · rfl
  rw [bind_peek]
  dsimp only [next?, Stream.peek]
  cases assignOp? t.lexeme with
  | none => rfl
  | some op =>
    dsimp only
    by_cases htarget : isTarget left = true
    · rw [if_pos htarget, if_pos htarget, bind_token]
      exact erase_bind erase_expr fun right s3 h3 => rfl
    · rw [if_neg htarget, if_neg htarget]
      rfl

theorem exprs_eq (closing : Punct) : exprs closing = do
    if (← peek) = mark closing then return []
    else
      let e ← expression
      if (← peek) = mark .comma then
        let _ ← token
        return e :: (← exprs closing)
      else return [e] := by
  funext s
  refine erase_peek rfl (erase_bind erase_expression fun e s1 h1 => ?_)
  refine erase_accept (mark .comma) nofun (fun _ s2 h2 => ?_) ?_
  · exact erase_bind erase_exprs fun rest s3 h3 => rfl
  · rfl

/-! ## Equations of statements -/

theorem parenthesised_eq : parenthesised = do
    let _ ← expect (mark .lparen)
    let e ← expression
    let _ ← expect (mark .rparen)
    return e := by
  funext s
  refine erase_bind rfl fun _ s1 h1 => ?_
  refine erase_bind erase_expr fun e s2 h2 => ?_
  exact erase_bind rfl fun _ s3 h3 => rfl

theorem bareBlock_eq (label : Option Name) (start : Position) : bareBlock label start = do
    let body ← block
    return .bare label body (← since start) := by
  funext s
  exact erase_bind erase_block fun body s1 h1 => rfl

theorem whileTail_eq (label : Option Name) (negate : Bool) (start : Position) : whileTail label negate start = do
    let test ← parenthesised
    let body ← block
    return .whileLoop label test negate body (← since start) := by
  funext s
  refine erase_bind erase_parenthesised fun test s1 h1 => ?_
  exact erase_bind erase_block fun body s2 h2 => rfl

theorem foreachTail_eq (label : Option Name) (start : Position) : foreachTail label start = do
    let _ ← expect (word .myWord)
    let item ← expectName "loop variable"
    let iterable ← parenthesised
    let body ← block
    return .foreachLoop label item iterable body (← since start) := by
  funext s
  refine erase_bind rfl fun _ s1 h1 => ?_
  refine erase_bind rfl fun item s2 h2 => ?_
  refine erase_bind erase_parenthesised fun iterable s3 h3 => ?_
  exact erase_bind erase_block fun body s4 h4 => rfl

theorem headerPart_eq (closing : Punct) : headerPart closing = do
    if (← peek) = mark closing then
      let _ ← expect (mark closing)
      return .missing
    else
      let e ← expression
      let _ ← expect (mark closing)
      return e := by
  funext s
  refine erase_peek (erase_bind rfl fun _ s1 h1 => rfl) ?_
  refine erase_bind erase_expression fun e s1 h1 => ?_
  exact erase_bind rfl fun _ s2 h2 => rfl

theorem forTail_eq (label : Option Name) (start : Position) : forTail label start = do
    if (← peek) = word .myWord then foreachTail label start
    else
      let _ ← expect (mark .lparen)
      let init ← headerPart .semicolon
      let test ← headerPart .semicolon
      let step ← headerPart .rparen
      let body ← block
      return .forLoop label (initOf init) test step body (← since start) := by
  funext s
  refine erase_peek erase_foreachTail ?_
  refine erase_bind rfl fun _ s1 h1 => ?_
  refine erase_bind erase_headerPart fun init s2 h2 => ?_
  refine erase_bind erase_headerPart fun test s3 h3 => ?_
  refine erase_bind erase_headerPart fun step s4 h4 => ?_
  exact erase_bind erase_block fun body s5 h5 => rfl

section Erasing

variable {s : Stream} {k : Nat}

theorem erase_loop? (label : Option Name) (start : Position) (h : s.size ≤ k) :
    (loop? (parsers k) label start s h).map erase = (loopAt label start s.peek).map fun loop => loop s := by
  obtain ⟨_ | ⟨⟨lexeme, begin, stop⟩, ts⟩, eof, last⟩ := s
  · rfl
  cases lexeme with
  | keyword w =>
    cases w with
    | whileWord => exact congrArg some (erase_last erase_whileTail fun _ _ _ => rfl)
    | untilWord => exact congrArg some (erase_last erase_whileTail fun _ _ _ => rfl)
    | forWord => exact congrArg some (erase_last erase_forTail fun _ _ _ => rfl)
    | foreachWord => exact congrArg some (erase_last erase_foreachTail fun _ _ _ => rfl)
    | _ => rfl
  | punct p =>
    cases p with
    | lbrace => exact congrArg some erase_bareBlock
    | _ => rfl
  | _ => rfl

end Erasing

theorem labeled_eq : labeled = (do
    let start ← place
    let label ← expectName "label"
    let _ ← expect (mark .colon)
    match loopAt (some label) start (← peek) with
    | some loop => loop
    | none => complain (.misplacedLabel label.text)) := by
  funext s
  rw [bind_place]
  refine erase_bind rfl fun label s1 h1 => ?_
  refine erase_bind rfl fun _ s2 h2 => ?_
  dsimp only
  rw [bind_peek]
  have hloop := erase_loop? (some label) s.place (k := s.size) (s := s2) (by omega)
  cases hfound : loopAt (some label) s.place s2.peek with
  | none =>
    rw [hfound, Option.map_none, Option.map_eq_none_iff] at hloop
    rw [hloop]
    rfl
  | some loop =>
    rw [hfound, Option.map_some, Option.map_eq_some_iff] at hloop
    obtain ⟨result, hresult, herase⟩ := hloop
    rw [hresult]
    exact erase_last herase fun _ _ _ => rfl

theorem clauses_eq : clauses = do
    if (← peek) = word .elsifWord then
      let _ ← token
      let test ← parenthesised
      let body ← block
      return .mk test body :: (← clauses)
    else return [] := by
  funext s
  refine erase_optional (word .elsifWord) nofun (fun _ s1 h1 => ?_) ?_
  · refine erase_bind erase_parenthesised fun test s2 h2 => ?_
    refine erase_bind erase_block fun body s3 h3 => ?_
    exact erase_bind erase_clauses fun rest s4 h4 => rfl
  · rfl

theorem otherwise_eq : otherwise = do
    if (← peek) = word .elseWord then
      let _ ← token
      block
    else return .missing := by
  funext s
  refine erase_optional (word .elseWord) nofun (fun _ s1 h1 => ?_) ?_
  · exact erase_last erase_block fun _ _ _ => rfl
  · rfl

theorem ifTail_eq (negate : Bool) (start : Position) : ifTail negate start = do
    let test ← parenthesised
    let body ← block
    let more ← clauses
    let last ← otherwise
    return .ifChain test negate body more last (← since start) := by
  funext s
  refine erase_bind erase_parenthesised fun test s1 h1 => ?_
  refine erase_bind erase_block fun body s2 h2 => ?_
  refine erase_bind erase_clausesAt fun more s3 h3 => ?_
  exact erase_bind erase_otherwise fun last s4 h4 => rfl

theorem subTail_eq (start : Position) : subTail start = do
    let name ← expectName "subroutine name"
    let list ← params
    let body ← block
    return .sub name list body (← since start) := by
  funext s
  refine erase_bind rfl fun name s1 h1 => ?_
  refine erase_bind erase_params fun list s2 h2 => ?_
  exact erase_bind erase_block fun body s3 h3 => rfl

theorem verbTail_eq (verb : Verb) (start : Position) : verbTail verb start = do
    match ← peek with
    | .ident name =>
      let t ← token
      return .verb verb (some ⟨name, t.span⟩) (← since start)
    | _ => return .verb verb none (← since start) := by
  funext s
  obtain ⟨_ | ⟨⟨lexeme, begin, stop⟩, ts⟩, eof, last⟩ := s
  · rfl
  cases lexeme <;> rfl

theorem gotoTail_eq (start : Position) : gotoTail start = do
    if (← peek) = mark .amp then
      let _ ← token
      let name ← expectName "subroutine name after 'goto &'"
      if (← peek) = mark .lparen then
        let args ← arguments
        return .tailCall (.ident name.text name.span) args false (← since start)
      else return .tailCall (.ident name.text name.span) [] true (← since start)
    else
      let label ← expectName "label after 'goto'"
      return .verb .goto (some label) (← since start) := by
  funext s
  refine erase_accept (mark .amp) nofun (fun _ s1 h1 => ?_) ?_
  · refine erase_bind rfl fun name s2 h2 => ?_
    exact erase_peek (erase_bind erase_arguments fun args s3 h3 => rfl) rfl
  · exact erase_bind rfl fun label s1 h1 => rfl

theorem returnTail_eq (start : Position) : returnTail start = do
    if endsStatement (← peek) then return .ret .missing (← since start)
    else
      let e ← expression
      return .ret e (← since start) := by
  funext s
  rw [bind_peek]
  dsimp only [returnTail, unbounded, Parser.returnTail]
  by_cases hends : endsStatement s.peek = true
  · rw [if_pos hends, if_pos hends]
    rfl
  · rw [if_neg hends, if_neg hends]
    exact erase_bind erase_expression fun e s1 h1 => rfl

theorem erase_expressionStmt (s : Stream) :
    erase (do
      let ⟨e, s1, h1⟩ ← Parser.expression (parsers s.size) s (Nat.le_refl _)
      return ⟨.expr e, s1, h1⟩ : Result Stmt s.size) = (do return .expr (← expression) : Act Stmt) s :=
  erase_bind erase_expression fun _ _ _ => rfl

theorem simple_eq : simple = do
    match ← peek with
    | .keyword .lastWord => do verbTail .last (← token).start
    | .keyword .nextWord => do verbTail .next (← token).start
    | .keyword .redoWord => do verbTail .redo (← token).start
    | .keyword .gotoWord => do gotoTail (← token).start
    | .keyword .returnWord => do returnTail (← token).start
    | _ => return .expr (← expression) := by
  funext s
  have hexpr := erase_expressionStmt s
  obtain ⟨_ | ⟨⟨lexeme, begin, stop⟩, ts⟩, eof, last⟩ := s
  · exact hexpr
  cases lexeme with
  | keyword w =>
    cases w with
    | lastWord => exact erase_last rfl fun _ _ _ => rfl
    | nextWord => exact erase_last rfl fun _ _ _ => rfl
    | redoWord => exact erase_last rfl fun _ _ _ => rfl
    | gotoWord => exact erase_last erase_gotoTail fun _ _ _ => rfl
    | returnWord => exact erase_last erase_returnTail fun _ _ _ => rfl
    | _ => exact hexpr
  | _ => exact hexpr

theorem modifier_eq (stmt : Stmt) (start : Position) : modifier stmt start = do
    match ← peek with
    | .keyword .ifWord =>
      let _ ← token
      let test ← expression
      return .ifChain test false (.mk [stmt] stmt.span) [] .missing (← since start)
    | .keyword .unlessWord =>
      let _ ← token
      let test ← expression
      return .ifChain test true (.mk [stmt] stmt.span) [] .missing (← since start)
    | _ => return stmt := by
  funext s
  obtain ⟨_ | ⟨⟨lexeme, begin, stop⟩, ts⟩, eof, last⟩ := s
  · rfl
  rw [bind_peek]
  dsimp only [modifier, unbounded, Parser.modifier, next?, Stream.peek]
  cases lexeme with
  | keyword w =>
    cases w with
    | ifWord =>
      dsimp only
      rw [bind_token]
      exact erase_bind erase_expr fun test s2 h2 => rfl
    | unlessWord =>
      dsimp only
      rw [bind_token]
      exact erase_bind erase_expr fun test s2 h2 => rfl
    | _ => rfl
  | _ => rfl

theorem terminator_eq : terminator = (do
    let l ← peek
    if l = mark .semicolon then
      let _ ← token
      return ()
    else if l = mark .rbrace || l = .eof then return ()
    else complain .expectedTerminator) := by
  funext s
  refine erase_accept (mark .semicolon) nofun (fun _ s1 h1 => ?_) ?_
  · rfl
  · split <;> rfl

theorem terminated_eq : terminated = do
    let start ← place
    let stmt ← simple
    let whole ← modifier stmt start
    let _ ← terminator
    return whole := by
  funext s
  rw [bind_place]
  refine erase_bind erase_simple fun stmt s1 h1 => ?_
  refine erase_bind erase_modifier fun whole s2 h2 => ?_
  exact erase_bind rfl fun _ s3 h3 => rfl

theorem plain_eq : plain = (do
    match ← peek, ← peekSecond with
    | .keyword .subWord, .ident _ => do subTail (← token).start
    | .keyword .ifWord, _ => do ifTail false (← token).start
    | .keyword .unlessWord, _ => do ifTail true (← token).start
    | _, _ => terminated) := by
  funext s
  obtain ⟨_ | ⟨⟨lexeme, begin, stop⟩, ts⟩, eof, last⟩ := s
  · rfl
  cases lexeme with
  | keyword w =>
    cases w with
    | subWord =>
      obtain _ | ⟨⟨lexeme, begin', stop'⟩, ts⟩ := ts
      · rfl
      · cases lexeme with
        | ident name => exact erase_last erase_subTail fun _ _ _ => rfl
        | _ => rfl
    | ifWord => exact erase_last erase_ifTail fun _ _ _ => rfl
    | unlessWord => exact erase_last erase_ifTail fun _ _ _ => rfl
    | _ => rfl
  | _ => rfl

theorem statement_eq : statement = (do
    let start ← place
    if ← atLabel then labeled
    else
      match loopAt none start (← peek) with
      | some loop => loop
      | none => plain) := by
  funext s
  rw [bind_place, bind_atLabel, statement, unbounded, Parser.statement]
  by_cases hlabel : Parser.atLabel s = true
  · rw [if_pos hlabel, if_pos hlabel]
    exact erase_labeled
  rw [if_neg hlabel, if_neg hlabel, bind_peek]
  have hloop := erase_loop? none s.place (Nat.le_refl s.size)
  cases hfound : loopAt none s.place s.peek with
  | none =>
    rw [hfound, Option.map_none, Option.map_eq_none_iff] at hloop
    rw [hloop]
    exact erase_plain
  | some loop =>
    rw [hfound, Option.map_some, Option.map_eq_some_iff] at hloop
    obtain ⟨result, hresult, herase⟩ := hloop
    rw [hresult]
    exact herase

def Closes : Option Position → Lexeme → Prop
  | some _, l => l = mark .rbrace
  | none, l => l = .eof

instance (opening : Option Position) (l : Lexeme) : Decidable (Closes opening l) :=
  match opening with
  | some _ => inferInstanceAs (Decidable (l = mark .rbrace))
  | none => inferInstanceAs (Decidable (l = .eof))

def unterminated (opening : Option Position) : Act (List Stmt) :=
  fun _ => .error ⟨.unterminatedBlock, opening.getD .zero, ""⟩

theorem erase_statements (s : Stream) (opening : Option Position) :
    erase ((Parser.statement (parsers s.size) s (Nat.le_refl _)).bind fun first =>
      ((parsers s.size).stmts opening first.rest first.shorter).bind fun others =>
        (.ok ⟨first.value :: others.value, others.rest,
          Nat.lt_trans (Nat.lt_of_lt_of_le others.shorter first.shorter) (Nat.lt_succ_self _)⟩ :
          Result (List Stmt) (s.size + 1))) =
      (do return (← statement) :: (← stmts opening) : Act (List Stmt)) s := by
  refine erase_bind erase_statement fun stmt s1 h1 => ?_
  exact erase_bind erase_stmts fun rest s2 h2 => rfl

theorem stmts_eq (opening : Option Position) : stmts opening = do
    let l ← peek
    if Closes opening l then return []
    else if l = .eof then unterminated opening
    else if l = mark .semicolon then
      let _ ← token
      stmts opening
    else
      let stmt ← statement
      return stmt :: (← stmts opening) := by
  funext s
  have hlist := erase_statements s opening
  obtain ⟨_ | ⟨⟨lexeme, begin, stop⟩, ts⟩, eof, last⟩ := s
  · cases opening <;> rfl
  cases lexeme with
  | eof => cases opening <;> rfl
  | punct p =>
    cases p with
    | semicolon => cases opening <;> exact erase_last erase_stmts fun _ _ _ => rfl
    | rbrace =>
      cases opening with
      | none => exact hlist
      | some place => rfl
    | _ => cases opening <;> exact hlist
  | _ => cases opening <;> exact hlist

end Act

end KestrelLang.Parser
