import KestrelLang.Grammar.Lexer
import KestrelLang.Grammar.Tree
import KestrelLang.Number.Reading

/-! # Parser

* `Stream` — the tokens left to read.
* `Parsed` — a result with the stream after it, and the proof that the stream became shorter.
* `Shorter` — the parsers for streams below a given length; every recursive call goes through it.
* `expression`, `statement`, `block`, … — one parser for each construct of the grammar.
* `parseModule` — from source text to a tree.

A parser is a plain function of the parsers for shorter streams, so recursion is possible only after a
token was taken, and `parsers` ties the knot by recursion on the bound. -/

namespace KestrelLang.Parser

/-! ## Streams -/

/-- The tokens left to read, the place where the text ends, and the end of the last token read. -/
structure Stream where
  tokens : List Token
  eof : Position
  last : Position
  deriving DecidableEq, Repr, Inhabited

namespace Stream

def size (s : Stream) : Nat := s.tokens.length

/-- The next lexeme; after the last token it is the end of the text. -/
def peek (s : Stream) : Lexeme :=
  match s.tokens with
  | [] => .eof
  | t :: _ => t.lexeme

def peekSecond (s : Stream) : Lexeme :=
  match s.tokens with
  | _ :: t :: _ => t.lexeme
  | _ => .eof

def place (s : Stream) : Position :=
  match s.tokens with
  | [] => s.eof
  | t :: _ => t.start

def since (s : Stream) (start : Position) : Span := ⟨start, s.last⟩

end Stream

/-- A result and the stream after it, which has fewer than `n` tokens. -/
structure Parsed (α : Type) (n : Nat) where
  value : α
  rest : Stream
  shorter : rest.size < n

abbrev Result (α : Type) (n : Nat) := Except ParseError (Parsed α n)

def complain {α : Type} {n : Nat} (s : Stream) (cause : ParseCause) : Result α n :=
  .error ⟨cause, s.place, ""⟩

/-! ## Single tokens -/

def next? (s : Stream) : Option (Parsed Token s.size) :=
  match h : s.tokens with
  | [] => none
  | t :: ts =>
    some ⟨t, { s with tokens := ts, last := t.stop }, by simp [Stream.size, h]⟩

def accept (wanted : Lexeme) (s : Stream) : Option (Parsed Token s.size) :=
  match next? s with
  | some p => if p.value.lexeme = wanted then some p else none
  | none => none

def expect (wanted : Lexeme) (s : Stream) : Result Token s.size :=
  match accept wanted s with
  | some p => .ok p
  | none => complain s (.expectedLexeme wanted s.peek)

def expectName (role : String) (s : Stream) : Result Name s.size :=
  match next? s with
  | some ⟨⟨.ident name, start, stop⟩, rest, h⟩ => .ok ⟨⟨name, ⟨start, stop⟩⟩, rest, h⟩
  | _ => complain s (.expectedName role s.peek)

abbrev mark (p : Punct) : Lexeme := .punct p

abbrev word (k : Keyword) : Lexeme := .keyword k

/-! ## Operators -/

/-- An infix operator with its level; a higher level binds tighter. -/
def infixLevel? : Lexeme → Option (Nat × BinaryOp)
  | .punct .or => some (1, .or)
  | .punct .and => some (2, .and)
  | .punct .eq => some (3, .eq)
  | .punct .ne => some (3, .ne)
  | .punct .lt => some (3, .lt)
  | .punct .le => some (3, .le)
  | .punct .gt => some (3, .gt)
  | .punct .ge => some (3, .ge)
  | .punct .range => some (4, .range)
  | .punct .plus => some (5, .add)
  | .punct .minus => some (5, .sub)
  | .punct .dot => some (5, .concat)
  | .punct .star => some (6, .mul)
  | .punct .slash => some (6, .div)
  | .punct .percent => some (6, .mod)
  | _ => none

def prefixLevel : Nat := 7

def prefixOp? : Lexeme → Option UnaryOp
  | .punct .minus => some .neg
  | .punct .bang => some .not
  | _ => none

def assignOp? : Lexeme → Option AssignOp
  | .punct .assign => some .assign
  | .punct .plusAssign => some .add
  | .punct .minusAssign => some .sub
  | .punct .dotAssign => some .concat
  | _ => none

/-- Only a name or an element can be assigned to. -/
def isTarget : Expr → Bool
  | .ident .. | .index .. => true
  | _ => false

/-! ## Recursion -/

/-- The parsers for streams with fewer than `k` tokens. Those whose result may take no token at all
    promise only that the stream does not grow. -/
structure Shorter (k : Nat) where
  expr : (s : Stream) → s.size < k → Result Expr s.size
  binary : Nat → (s : Stream) → s.size < k → Result Expr s.size
  operators : Nat → Position → Expr → (s : Stream) → s.size < k → Result Expr (s.size + 1)
  suffixes : Position → Expr → (s : Stream) → s.size < k → Result Expr (s.size + 1)
  exprs : Punct → (s : Stream) → s.size < k → Result (List Expr) (s.size + 1)
  names : (s : Stream) → s.size < k → Result (List Name) (s.size + 1)
  stmts : Option Position → (s : Stream) → s.size < k → Result (List Stmt) (s.size + 1)
  clauses : (s : Stream) → s.size < k → Result (List Clause) (s.size + 1)

/-! ## Statement lists -/

def block {k : Nat} (r : Shorter k) (s : Stream) (h : s.size ≤ k) : Result Block s.size := do
  let ⟨opening, s1, h1⟩ ← expect (mark .lbrace) s
  let ⟨body, s2, h2⟩ ← r.stmts (some opening.start) s1 (by omega)
  let ⟨_, s3, h3⟩ ← expect (mark .rbrace) s2
  return ⟨.mk body (s3.since opening.start), s3, by omega⟩

/-- Names up to a closing parenthesis, with commas between them and perhaps one at the end. -/
def names {k : Nat} (r : Shorter k) (s : Stream) (h : s.size ≤ k) :
    Result (List Name) (s.size + 1) := do
  if s.peek = mark .rparen then return ⟨[], s, by omega⟩
  let ⟨name, s1, h1⟩ ← expectName "parameter name" s
  match accept (mark .comma) s1 with
  | some ⟨_, s2, h2⟩ => do
    let ⟨rest, s3, h3⟩ ← r.names s2 (by omega)
    return ⟨name :: rest, s3, by omega⟩
  | none => return ⟨[name], s1, by omega⟩

/-- The parameters of a sub; the parentheses may be left out. -/
def params {k : Nat} (r : Shorter k) (s : Stream) (h : s.size ≤ k) :
    Result (List Name) (s.size + 1) := do
  match accept (mark .lparen) s with
  | none => return ⟨[], s, by omega⟩
  | some ⟨_, s1, h1⟩ => do
    let ⟨list, s2, h2⟩ ← r.names s1 (by omega)
    let ⟨_, s3, h3⟩ ← expect (mark .rparen) s2
    return ⟨list, s3, by omega⟩

/-! ## Expressions -/

def intLiteral (t : Token) (s : Stream) (digits : String) : Result Expr (s.size + 1) :=
  match Number.readInt64? digits with
  | some n => .ok ⟨.int n t.span, s, by omega⟩
  | none => .error ⟨.integerOutOfRange digits, t.start, ""⟩

def floatLiteral (t : Token) (s : Stream) (digits : String) : Result Expr (s.size + 1) :=
  match Number.readFloat? digits with
  | some x => .ok ⟨.float x t.span, s, by omega⟩
  | none => .error ⟨.invalidFloat digits, t.start, ""⟩

def primary {k : Nat} (r : Shorter k) (s : Stream) (h : s.size ≤ k) : Result Expr s.size := do
  match next? s with
  | none => complain s (.unexpectedInExpression s.peek)
  | some ⟨t, s1, h1⟩ =>
    match t.lexeme with
    | .int digits => do
      let ⟨e, s2, h2⟩ ← intLiteral t s1 digits
      return ⟨e, s2, by omega⟩
    | .float digits => do
      let ⟨e, s2, h2⟩ ← floatLiteral t s1 digits
      return ⟨e, s2, by omega⟩
    | .string contents => return ⟨.str contents t.span, s1, h1⟩
    | .ident name => return ⟨.ident name t.span, s1, h1⟩
    | .keyword .undefWord => return ⟨.undefined t.span, s1, h1⟩
    | .keyword .subWord => do
      let ⟨list, s2, h2⟩ ← params r s1 (by omega)
      let ⟨body, s3, h3⟩ ← block r s2 (by omega)
      return ⟨.closure list body (s3.since t.start), s3, by omega⟩
    -- Parentheses leave no node behind.
    | .punct .lparen => do
      let ⟨e, s2, h2⟩ ← r.expr s1 (by omega)
      let ⟨_, s3, h3⟩ ← expect (mark .rparen) s2
      return ⟨e, s3, by omega⟩
    | .punct .lbracket => do
      let ⟨elements, s2, h2⟩ ← r.exprs .rbracket s1 (by omega)
      let ⟨_, s3, h3⟩ ← expect (mark .rbracket) s2
      return ⟨.array elements (s3.since t.start), s3, by omega⟩
    | found => complain s (.unexpectedInExpression found)

def arguments {k : Nat} (r : Shorter k) (s : Stream) (h : s.size ≤ k) :
    Result (List Expr) s.size := do
  let ⟨_, s1, h1⟩ ← expect (mark .lparen) s
  let ⟨list, s2, h2⟩ ← r.exprs .rparen s1 (by omega)
  let ⟨_, s3, h3⟩ ← expect (mark .rparen) s2
  return ⟨list, s3, by omega⟩

/-- Calls and indexes after an expression `e` that began at `start`. -/
def suffixes {k : Nat} (r : Shorter k) (start : Position) (e : Expr) (s : Stream) (h : s.size ≤ k) :
    Result Expr (s.size + 1) := do
  if s.peek = mark .lparen then
    let ⟨args, s1, h1⟩ ← arguments r s h
    let ⟨whole, s2, h2⟩ ← r.suffixes start (.call e args (s1.since start)) s1 (by omega)
    return ⟨whole, s2, by omega⟩
  else
    match accept (mark .lbracket) s with
    | none => return ⟨e, s, by omega⟩
    | some ⟨_, s1, h1⟩ => do
      let ⟨index, s2, h2⟩ ← r.expr s1 (by omega)
      let ⟨_, s3, h3⟩ ← expect (mark .rbracket) s2
      let ⟨whole, s4, h4⟩ ← r.suffixes start (.index e index (s3.since start)) s3 (by omega)
      return ⟨whole, s4, by omega⟩

def suffixed {k : Nat} (r : Shorter k) (s : Stream) (h : s.size ≤ k) : Result Expr s.size := do
  let ⟨e, s1, h1⟩ ← primary r s h
  let ⟨whole, s2, h2⟩ ← suffixes r s.place e s1 (by omega)
  return ⟨whole, s2, by omega⟩

def unary {k : Nat} (r : Shorter k) (s : Stream) (h : s.size ≤ k) : Result Expr s.size := do
  match prefixOp? s.peek, next? s with
  | some op, some ⟨t, s1, h1⟩ => do
    let ⟨operand, s2, h2⟩ ← r.binary prefixLevel s1 (by omega)
    return ⟨.unary op operand (s2.since t.start), s2, by omega⟩
  | _, _ => suffixed r s h

/-- Infix operators above level `min` after a left operand that began at `start`. -/
def operators {k : Nat} (r : Shorter k) (min : Nat) (start : Position) (left : Expr) (s : Stream)
    (h : s.size ≤ k) : Result Expr (s.size + 1) := do
  match infixLevel? s.peek, next? s with
  | some (level, op), some ⟨_, s1, h1⟩ =>
    -- An operator of the same level is left alone, so that operators of one level lean to the left.
    if level ≤ min then return ⟨left, s, by omega⟩
    else
      let ⟨right, s2, h2⟩ ← r.binary level s1 (by omega)
      let joined := Expr.binary op left right (s2.since start)
      let ⟨whole, s3, h3⟩ ← r.operators min start joined s2 (by omega)
      return ⟨whole, s3, by omega⟩
  | _, _ => return ⟨left, s, by omega⟩

/-- An expression whose infix operators all lie above level `min`. -/
def binary {k : Nat} (r : Shorter k) (min : Nat) (s : Stream) (h : s.size ≤ k) :
    Result Expr s.size := do
  let ⟨left, s1, h1⟩ ← unary r s h
  let ⟨whole, s2, h2⟩ ← operators r min s.place left s1 (by omega)
  return ⟨whole, s2, by omega⟩

def declaration {k : Nat} (r : Shorter k) (start : Position) (s : Stream) (h : s.size ≤ k) :
    Result Expr s.size := do
  let ⟨name, s1, h1⟩ ← expectName "variable name after 'my'" s
  let target := Expr.ident name.text name.span
  match accept (mark .assign) s1 with
  | some ⟨_, s2, h2⟩ => do
    let ⟨value, s3, h3⟩ ← r.expr s2 (by omega)
    return ⟨.assign .declare target value (s3.since start), s3, by omega⟩
  | none => return ⟨.assign .declare target .missing (s1.since start), s1, by omega⟩

def expression {k : Nat} (r : Shorter k) (s : Stream) (h : s.size ≤ k) : Result Expr s.size := do
  match accept (word .myWord) s with
  | some ⟨_, s1, h1⟩ => do
    let ⟨e, s2, h2⟩ ← declaration r s.place s1 (by omega)
    return ⟨e, s2, by omega⟩
  | none => do
    let ⟨left, s1, h1⟩ ← binary r 0 s h
    match assignOp? s1.peek, next? s1 with
    | some op, some ⟨_, s2, h2⟩ =>
      if isTarget left then
        let ⟨right, s3, h3⟩ ← r.expr s2 (by omega)
        return ⟨.assign op left right (s3.since s.place), s3, by omega⟩
      -- The complaint is about the place of the operator.
      else complain s1 .invalidAssignmentTarget
    | _, _ => return ⟨left, s1, h1⟩

/-- Expressions up to a closing mark, with commas between them and perhaps one at the end. -/
def exprs {k : Nat} (r : Shorter k) (closing : Punct) (s : Stream) (h : s.size ≤ k) :
    Result (List Expr) (s.size + 1) := do
  if s.peek = mark closing then return ⟨[], s, by omega⟩
  let ⟨e, s1, h1⟩ ← expression r s h
  match accept (mark .comma) s1 with
  | some ⟨_, s2, h2⟩ => do
    let ⟨rest, s3, h3⟩ ← r.exprs closing s2 (by omega)
    return ⟨e :: rest, s3, by omega⟩
  | none => return ⟨[e], s1, by omega⟩

/-! ## Statements -/

def parenthesised {k : Nat} (r : Shorter k) (s : Stream) (h : s.size ≤ k) : Result Expr s.size := do
  let ⟨_, s1, h1⟩ ← expect (mark .lparen) s
  let ⟨e, s2, h2⟩ ← r.expr s1 (by omega)
  let ⟨_, s3, h3⟩ ← expect (mark .rparen) s2
  return ⟨e, s3, by omega⟩

def bareBlock {k : Nat} (r : Shorter k) (label : Option Name) (start : Position) (s : Stream)
    (h : s.size ≤ k) : Result Stmt s.size := do
  let ⟨body, s1, h1⟩ ← block r s h
  return ⟨.bare label body (s1.since start), s1, h1⟩

def whileTail {k : Nat} (r : Shorter k) (label : Option Name) (negate : Bool) (start : Position)
    (s : Stream) (h : s.size ≤ k) : Result Stmt s.size := do
  let ⟨test, s1, h1⟩ ← parenthesised r s h
  let ⟨body, s2, h2⟩ ← block r s1 (by omega)
  return ⟨.whileLoop label test negate body (s2.since start), s2, by omega⟩

def foreachTail {k : Nat} (r : Shorter k) (label : Option Name) (start : Position) (s : Stream)
    (h : s.size ≤ k) : Result Stmt s.size := do
  let ⟨_, s1, h1⟩ ← expect (word .myWord) s
  let ⟨item, s2, h2⟩ ← expectName "loop variable" s1
  let ⟨iterable, s3, h3⟩ ← parenthesised r s2 (by omega)
  let ⟨body, s4, h4⟩ ← block r s3 (by omega)
  return ⟨.foreachLoop label item iterable body (s4.since start), s4, by omega⟩

/-- A part of a `for` header up to its closing mark; it may be empty. -/
def headerPart {k : Nat} (r : Shorter k) (closing : Punct) (s : Stream) (h : s.size ≤ k) :
    Result Expr s.size := do
  if s.peek = mark closing then
    let ⟨_, s1, h1⟩ ← expect (mark closing) s
    return ⟨.missing, s1, h1⟩
  else
    let ⟨e, s1, h1⟩ ← expression r s h
    let ⟨_, s2, h2⟩ ← expect (mark closing) s1
    return ⟨e, s2, by omega⟩

def initOf : Expr → Stmt
  | .missing => .missing
  | e => .expr e

def forTail {k : Nat} (r : Shorter k) (label : Option Name) (start : Position) (s : Stream)
    (h : s.size ≤ k) : Result Stmt s.size := do
  if s.peek = word .myWord then foreachTail r label start s h
  else
    let ⟨_, s1, h1⟩ ← expect (mark .lparen) s
    let ⟨init, s2, h2⟩ ← headerPart r .semicolon s1 (by omega)
    let ⟨test, s3, h3⟩ ← headerPart r .semicolon s2 (by omega)
    let ⟨step, s4, h4⟩ ← headerPart r .rparen s3 (by omega)
    let ⟨body, s5, h5⟩ ← block r s4 (by omega)
    return ⟨.forLoop label (initOf init) test step body (s5.since start), s5, by omega⟩

def loop? {k : Nat} (r : Shorter k) (label : Option Name) (start : Position) (s : Stream)
    (h : s.size ≤ k) : Option (Result Stmt s.size) :=
  match s.peek, next? s with
  | .punct .lbrace, _ => some (bareBlock r label start s h)
  | .keyword .whileWord, some ⟨_, s1, h1⟩ =>
    some (do
      let ⟨e, s2, h2⟩ ← whileTail r label false start s1 (by omega)
      return ⟨e, s2, by omega⟩)
  | .keyword .untilWord, some ⟨_, s1, h1⟩ =>
    some (do
      let ⟨e, s2, h2⟩ ← whileTail r label true start s1 (by omega)
      return ⟨e, s2, by omega⟩)
  | .keyword .forWord, some ⟨_, s1, h1⟩ =>
    some (do
      let ⟨e, s2, h2⟩ ← forTail r label start s1 (by omega)
      return ⟨e, s2, by omega⟩)
  | .keyword .foreachWord, some ⟨_, s1, h1⟩ =>
    some (do
      let ⟨e, s2, h2⟩ ← foreachTail r label start s1 (by omega)
      return ⟨e, s2, by omega⟩)
  | _, _ => none

def labeled {k : Nat} (r : Shorter k) (s : Stream) (h : s.size ≤ k) : Result Stmt s.size := do
  let ⟨label, s1, h1⟩ ← expectName "label" s
  let ⟨_, s2, h2⟩ ← expect (mark .colon) s1
  match loop? r (some label) s.place s2 (by omega) with
  | some result => do
    let ⟨stmt, s3, h3⟩ ← result
    return ⟨stmt, s3, by omega⟩
  | none => complain s2 (.misplacedLabel label.text s2.peek)

def clauses {k : Nat} (r : Shorter k) (s : Stream) (h : s.size ≤ k) :
    Result (List Clause) (s.size + 1) := do
  match accept (word .elsifWord) s with
  | none => return ⟨[], s, by omega⟩
  | some ⟨_, s1, h1⟩ => do
    let ⟨test, s2, h2⟩ ← parenthesised r s1 (by omega)
    let ⟨body, s3, h3⟩ ← block r s2 (by omega)
    let ⟨rest, s4, h4⟩ ← r.clauses s3 (by omega)
    return ⟨.mk test body :: rest, s4, by omega⟩

def otherwise {k : Nat} (r : Shorter k) (s : Stream) (h : s.size ≤ k) :
    Result Block (s.size + 1) := do
  match accept (word .elseWord) s with
  | none => return ⟨.missing, s, by omega⟩
  | some ⟨_, s1, h1⟩ => do
    let ⟨body, s2, h2⟩ ← block r s1 (by omega)
    return ⟨body, s2, by omega⟩

def ifTail {k : Nat} (r : Shorter k) (negate : Bool) (start : Position) (s : Stream) (h : s.size ≤ k) :
    Result Stmt s.size := do
  let ⟨test, s1, h1⟩ ← parenthesised r s h
  let ⟨body, s2, h2⟩ ← block r s1 (by omega)
  let ⟨more, s3, h3⟩ ← clauses r s2 (by omega)
  let ⟨last, s4, h4⟩ ← otherwise r s3 (by omega)
  return ⟨.ifChain test negate body more last (s4.since start), s4, by omega⟩

def subTail {k : Nat} (r : Shorter k) (start : Position) (s : Stream) (h : s.size ≤ k) :
    Result Stmt s.size := do
  let ⟨name, s1, h1⟩ ← expectName "subroutine name" s
  let ⟨list, s2, h2⟩ ← params r s1 (by omega)
  let ⟨body, s3, h3⟩ ← block r s2 (by omega)
  return ⟨.sub name list body (s3.since start), s3, by omega⟩

def verbTail (verb : Verb) (start : Position) (s : Stream) : Result Stmt (s.size + 1) :=
  match s.peek, next? s with
  | .ident name, some ⟨t, s1, h1⟩ =>
    .ok ⟨.verb verb (some ⟨name, t.span⟩) (s1.since start), s1, by omega⟩
  | _, _ => .ok ⟨.verb verb none (s.since start), s, by omega⟩

def gotoTail {k : Nat} (r : Shorter k) (start : Position) (s : Stream) (h : s.size ≤ k) :
    Result Stmt s.size := do
  match accept (mark .amp) s with
  | some ⟨_, s1, h1⟩ => do
    let ⟨name, s2, h2⟩ ← expectName "subroutine name after 'goto &'" s1
    let callee := Expr.ident name.text name.span
    if s2.peek = mark .lparen then
      let ⟨args, s3, h3⟩ ← arguments r s2 (by omega)
      return ⟨.tailCall callee args false (s3.since start), s3, by omega⟩
    -- Without parentheses the callee gets the arguments of the caller.
    else return ⟨.tailCall callee [] true (s2.since start), s2, by omega⟩
  | none => do
    let ⟨label, s1, h1⟩ ← expectName "label after 'goto'" s
    return ⟨.verb .goto (some label) (s1.since start), s1, h1⟩

/-- The lexemes before which a `return` has no value. -/
def endsStatement : Lexeme → Bool
  | .punct .semicolon | .punct .rbrace | .eof | .keyword .ifWord | .keyword .unlessWord => true
  | _ => false

def returnTail {k : Nat} (r : Shorter k) (start : Position) (s : Stream) (h : s.size ≤ k) :
    Result Stmt (s.size + 1) := do
  if endsStatement s.peek then return ⟨.ret .missing (s.since start), s, by omega⟩
  else
    let ⟨e, s1, h1⟩ ← expression r s h
    return ⟨.ret e (s1.since start), s1, by omega⟩

def simple {k : Nat} (r : Shorter k) (s : Stream) (h : s.size ≤ k) : Result Stmt s.size := do
  match s.peek, next? s with
  | .keyword .lastWord, some ⟨t, s1, h1⟩ => do
    let ⟨stmt, s2, h2⟩ ← verbTail .last t.start s1
    return ⟨stmt, s2, by omega⟩
  | .keyword .nextWord, some ⟨t, s1, h1⟩ => do
    let ⟨stmt, s2, h2⟩ ← verbTail .next t.start s1
    return ⟨stmt, s2, by omega⟩
  | .keyword .redoWord, some ⟨t, s1, h1⟩ => do
    let ⟨stmt, s2, h2⟩ ← verbTail .redo t.start s1
    return ⟨stmt, s2, by omega⟩
  | .keyword .gotoWord, some ⟨t, s1, h1⟩ => do
    let ⟨stmt, s2, h2⟩ ← gotoTail r t.start s1 (by omega)
    return ⟨stmt, s2, by omega⟩
  | .keyword .returnWord, some ⟨t, s1, h1⟩ => do
    let ⟨stmt, s2, h2⟩ ← returnTail r t.start s1 (by omega)
    return ⟨stmt, s2, by omega⟩
  | _, _ => do
    let ⟨e, s1, h1⟩ ← expression r s h
    return ⟨.expr e, s1, h1⟩

/-- `stmt` under the test of a modifier, if one follows. -/
def modifier {k : Nat} (r : Shorter k) (stmt : Stmt) (start : Position) (s : Stream) (h : s.size ≤ k) :
    Result Stmt (s.size + 1) := do
  match s.peek, next? s with
  | .keyword .ifWord, some ⟨_, s1, h1⟩ => do
    let ⟨test, s2, h2⟩ ← r.expr s1 (by omega)
    -- The body of the chain is a block that no brace opens.
    let body := Block.mk [stmt] stmt.span
    return ⟨.ifChain test false body [] .missing (s2.since start), s2, by omega⟩
  | .keyword .unlessWord, some ⟨_, s1, h1⟩ => do
    let ⟨test, s2, h2⟩ ← r.expr s1 (by omega)
    let body := Block.mk [stmt] stmt.span
    return ⟨.ifChain test true body [] .missing (s2.since start), s2, by omega⟩
  | _, _ => return ⟨stmt, s, by omega⟩

/-- The end of a statement: a semicolon, or a place where none is needed. -/
def terminator (s : Stream) : Result Unit (s.size + 1) :=
  match accept (mark .semicolon) s with
  | some ⟨_, s1, h1⟩ => .ok ⟨(), s1, by omega⟩
  | none =>
    if s.peek = mark .rbrace || s.peek = .eof then .ok ⟨(), s, by omega⟩
    else complain s (.expectedTerminator s.peek)

def terminated {k : Nat} (r : Shorter k) (s : Stream) (h : s.size ≤ k) : Result Stmt s.size := do
  let ⟨stmt, s1, h1⟩ ← simple r s h
  let ⟨whole, s2, h2⟩ ← modifier r stmt s.place s1 (by omega)
  let ⟨_, s3, h3⟩ ← terminator s2
  return ⟨whole, s3, by omega⟩

def plain {k : Nat} (r : Shorter k) (s : Stream) (h : s.size ≤ k) : Result Stmt s.size := do
  match s.peek, s.peekSecond, next? s with
  -- Without a name the word starts a closure, and so an expression.
  | .keyword .subWord, .ident _, some ⟨t, s1, h1⟩ => do
    let ⟨stmt, s2, h2⟩ ← subTail r t.start s1 (by omega)
    return ⟨stmt, s2, by omega⟩
  | .keyword .ifWord, _, some ⟨t, s1, h1⟩ => do
    let ⟨stmt, s2, h2⟩ ← ifTail r false t.start s1 (by omega)
    return ⟨stmt, s2, by omega⟩
  | .keyword .unlessWord, _, some ⟨t, s1, h1⟩ => do
    let ⟨stmt, s2, h2⟩ ← ifTail r true t.start s1 (by omega)
    return ⟨stmt, s2, by omega⟩
  | _, _, _ => terminated r s h

def atLabel (s : Stream) : Bool :=
  match s.peek, s.peekSecond with
  | .ident _, .punct .colon => true
  | _, _ => false

def statement {k : Nat} (r : Shorter k) (s : Stream) (h : s.size ≤ k) : Result Stmt s.size :=
  if atLabel s then labeled r s h
  else
    match loop? r none s.place s h with
    | some result => result
    | none => plain r s h

/-- Statements up to the end of the text, or up to the brace that closes a block opened at
    `opening`. Empty statements are passed over. -/
def stmts {k : Nat} (r : Shorter k) (opening : Option Position) (s : Stream) (h : s.size ≤ k) :
    Result (List Stmt) (s.size + 1) := do
  match opening, s.peek with
  | some _, .punct .rbrace => return ⟨[], s, by omega⟩
  -- The complaint is about the brace, not about the end of the text.
  | some place, .eof => .error ⟨.unterminatedBlock, place, ""⟩
  | none, .eof => return ⟨[], s, by omega⟩
  | _, _ =>
    match accept (mark .semicolon) s with
    | some ⟨_, s1, h1⟩ => do
      let ⟨rest, s2, h2⟩ ← r.stmts opening s1 (by omega)
      return ⟨rest, s2, by omega⟩
    | none => do
      let ⟨stmt, s1, h1⟩ ← statement r s h
      let ⟨rest, s2, h2⟩ ← r.stmts opening s1 (by omega)
      return ⟨stmt :: rest, s2, by omega⟩

/-! ## The whole text -/

/-- The parsers for streams with fewer than `k` tokens. -/
def parsers : (k : Nat) → Shorter k
  | 0 =>
    { expr := fun _ h => absurd h (Nat.not_lt_zero _)
      binary := fun _ _ h => absurd h (Nat.not_lt_zero _)
      operators := fun _ _ _ _ h => absurd h (Nat.not_lt_zero _)
      suffixes := fun _ _ _ h => absurd h (Nat.not_lt_zero _)
      exprs := fun _ _ h => absurd h (Nat.not_lt_zero _)
      names := fun _ h => absurd h (Nat.not_lt_zero _)
      stmts := fun _ _ h => absurd h (Nat.not_lt_zero _)
      clauses := fun _ h => absurd h (Nat.not_lt_zero _) }
  | k + 1 =>
    { expr := fun s h => expression (parsers k) s (Nat.le_of_lt_succ h)
      binary := fun min s h => binary (parsers k) min s (Nat.le_of_lt_succ h)
      operators := fun min start left s h =>
        operators (parsers k) min start left s (Nat.le_of_lt_succ h)
      suffixes := fun start e s h => suffixes (parsers k) start e s (Nat.le_of_lt_succ h)
      exprs := fun closing s h => exprs (parsers k) closing s (Nat.le_of_lt_succ h)
      names := fun s h => names (parsers k) s (Nat.le_of_lt_succ h)
      stmts := fun opening s h => stmts (parsers k) opening s (Nat.le_of_lt_succ h)
      clauses := fun s h => clauses (parsers k) s (Nat.le_of_lt_succ h) }

def Stream.ofTokens (l : Lexer.TokenList) : Stream :=
  let start := match l.tokens with
    | [] => l.eof
    | t :: _ => t.start
  ⟨l.tokens, l.eof, start⟩

/-- The tree of a token list. Its span runs from the first token to the end of the text. -/
def parseTokens (l : Lexer.TokenList) : Except ParseError Module := do
  let s := Stream.ofTokens l
  let ⟨body, _, _⟩ ← stmts (parsers s.size) none s (Nat.le_refl _)
  return ⟨body, ⟨s.place, l.eof⟩⟩

/-- The tree of a text; errors carry the name of the text. -/
def parseModule (origin : String) (text : List Char) : Except ParseError Module :=
  match Lexer.tokenize text with
  | .error e => .error { e with origin := origin }
  | .ok l =>
    match parseTokens l with
    | .error e => .error { e with origin := origin }
    | .ok m => .ok m

end KestrelLang.Parser
