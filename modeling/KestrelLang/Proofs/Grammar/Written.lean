import KestrelLang.Proofs.Grammar.Contexts

/-! # Expressions as they are written

The tree of an expression does not tell where parentheses stood. Here an expression keeps its parentheses, its commas
and all other tokens, and the levels of the operators say which expressions may stand where without parentheses.

* `infixTable`, `prefixTable`, `assignTable` — the operators, with their marks and levels.
* `Written`, `Row` — expressions and lists of them with all their tokens.
* `Written.tokens`, `Written.tree` — the tokens in order, and the tree without parentheses.
* `Written.level`, `Written.spine` — how tight the outermost operator binds, and the operators outside parentheses.
* `Written.Graded` — every operand binds tight enough for its operator.
* `Ends` — what comes after an expression does not go on with it. -/

namespace KestrelLang.Parser

/-! ## Operators -/

def infixTable : List (Punct × Nat × BinaryOp) :=
  [(.or, 1, .or), (.and, 2, .and),
    (.eq, 3, .eq), (.ne, 3, .ne), (.lt, 3, .lt), (.le, 3, .le), (.gt, 3, .gt), (.ge, 3, .ge),
    (.range, 4, .range), (.plus, 5, .add), (.minus, 5, .sub), (.dot, 5, .concat),
    (.star, 6, .mul), (.slash, 6, .div), (.percent, 6, .mod)]

def prefixTable : List (Punct × UnaryOp) := [(.minus, .neg), (.bang, .not)]

def assignTable : List (Punct × AssignOp) :=
  [(.assign, .assign), (.plusAssign, .add), (.minusAssign, .sub), (.dotAssign, .concat)]

section Tables

variable {l : Lexeme} {level : Nat}

theorem infixLevel?_eq_some {op : BinaryOp} :
    infixLevel? l = some (level, op) ↔ ∃ p, l = .punct p ∧ (p, level, op) ∈ infixTable := by
  cases l with
  | punct p => cases p <;> simp [infixLevel?, infixTable, eq_comm]
  | _ => simp [infixLevel?]

theorem prefixOp?_eq_some {op : UnaryOp} :
    prefixOp? l = some op ↔ ∃ p, l = .punct p ∧ (p, op) ∈ prefixTable := by
  cases l with
  | punct p => cases p <;> simp [prefixOp?, prefixTable, eq_comm]
  | _ => simp [prefixOp?]

theorem assignOp?_eq_some {op : AssignOp} :
    assignOp? l = some op ↔ ∃ p, l = .punct p ∧ (p, op) ∈ assignTable := by
  cases l with
  | punct p => cases p <;> simp [assignOp?, assignTable, eq_comm]
  | _ => simp [assignOp?]

/-- Infix operators lie above assignments and below prefix operators. -/
theorem level_of_infixTable {p : Punct} {op : BinaryOp} (h : (p, level, op) ∈ infixTable) :
    0 < level ∧ level < prefixLevel := by
  have hall : ∀ row ∈ infixTable, 0 < row.2.1 ∧ row.2.1 < prefixLevel := by decide
  exact hall _ h

end Tables

/-! ## Expressions with all their tokens -/

mutual

inductive Written where
  /-- A literal or a name. -/
  | leaf (t : Token) (e : Expr)
  /-- The word `sub`, and the stretch of tokens that are its parameters and its body. -/
  | closure (t : Token) (stretch : List Token) (params : List Name) (body : Block)
  | array (opening : Token) (elements : Row) (closing : Token)
  | parens (opening : Token) (inner : Written) (closing : Token)
  | call (callee : Written) (opening : Token) (args : Row) (closing : Token)
  | index (object : Written) (opening : Token) (position : Written) (closing : Token)
  | unary (op : UnaryOp) (sign : Token) (operand : Written)
  | binary (op : BinaryOp) (level : Nat) (left : Written) (sign : Token) (right : Written)
  | assign (op : AssignOp) (target : Written) (sign : Token) (value : Written)
  /-- The word `my` and a name, without a value. -/
  | declare (t name : Token)
  | declareAs (t name sign : Token) (value : Written)

/-- Expressions with commas between them, and perhaps one at the end. -/
inductive Row where
  | none
  | one (e : Written)
  | more (e : Written) (comma : Token) (rest : Row)

end

mutual

def Written.tokens : Written → List Token
  | .leaf t _ => [t]
  | .closure t stretch _ _ => t :: stretch
  | .array opening elements closing => opening :: (elements.tokens ++ [closing])
  | .parens opening inner closing => opening :: (inner.tokens ++ [closing])
  | .call callee opening args closing => callee.tokens ++ opening :: (args.tokens ++ [closing])
  | .index object opening position closing => object.tokens ++ opening :: (position.tokens ++ [closing])
  | .unary _ sign operand => sign :: operand.tokens
  | .binary _ _ left sign right => left.tokens ++ sign :: right.tokens
  | .assign _ target sign value => target.tokens ++ sign :: value.tokens
  | .declare t name => [t, name]
  | .declareAs t name sign value => t :: name :: sign :: value.tokens

def Row.tokens : Row → List Token
  | .none => []
  | .one e => e.tokens
  | .more e comma rest => e.tokens ++ comma :: rest.tokens

end

/-- From the start of the first token to the end of the last one. -/
def spanOf (ts : List Token) : Span := ⟨Stream.place ⟨ts, .zero, .zero⟩, endOf .zero ts⟩

mutual

/-- The tree of an expression. Each node spans its own tokens; parentheses leave no node. -/
def Written.tree : Written → Expr
  | .leaf _ e => e
  | .closure t stretch params body => .closure params body (spanOf (t :: stretch))
  | .array opening elements closing => .array elements.trees (spanOf (opening :: (elements.tokens ++ [closing])))
  | .parens _ inner _ => inner.tree
  | .call callee opening args closing =>
    .call callee.tree args.trees (spanOf (callee.tokens ++ opening :: (args.tokens ++ [closing])))
  | .index object opening position closing =>
    .index object.tree position.tree (spanOf (object.tokens ++ opening :: (position.tokens ++ [closing])))
  | .unary op sign operand => .unary op operand.tree (spanOf (sign :: operand.tokens))
  | .binary op _ left sign right => .binary op left.tree right.tree (spanOf (left.tokens ++ sign :: right.tokens))
  | .assign op target sign value => .assign op target.tree value.tree (spanOf (target.tokens ++ sign :: value.tokens))
  | .declare t name => .assign .declare (.ident name.lexeme.text name.span) .missing (spanOf [t, name])
  | .declareAs t name sign value =>
    .assign .declare (.ident name.lexeme.text name.span) value.tree (spanOf (t :: name :: sign :: value.tokens))

def Row.trees : Row → List Expr
  | .none => []
  | .one e => [e.tree]
  | .more e _ rest => e.tree :: rest.trees

end

/-! ## Levels -/

/-- The level of the outermost operator. Assignments lie below all operators; what is no operator lies above them. -/
def Written.level : Written → Nat
  | .assign .. | .declare .. | .declareAs .. => 0
  | .binary _ level .. => level
  | .unary .. => prefixLevel
  | .leaf .. | .closure .. | .array .. | .parens .. | .call .. | .index .. => prefixLevel + 1

/-- The levels of the infix operators that stand in no parentheses, in order. -/
def Written.spine : Written → List Nat
  | .binary _ level left _ right => left.spine ++ level :: right.spine
  | _ => []

def Token.leaf? (t : Token) : Option Expr :=
  match t.lexeme with
  | .int digits => (Number.readInt64? digits).map (.int · t.span)
  | .float digits => (Number.readFloat? digits).map (.float · t.span)
  | .string contents => some (.str contents t.span)
  | .ident name => some (.ident name t.span)
  | .keyword .undefWord => some (.undefined t.span)
  | _ => none

def Act.closureTail : Act (List Name × Block) := do
  let params ← Act.params
  let body ← Act.block
  return (params, body)

mutual

/-- The tokens say what the constructors say, and what stands without parentheses binds tight enough: a left operand
    as tight as its operator, a right one tighter, an operand of a prefix operator is none of an infix one, and what
    is called or indexed is no operand of an operator at all. -/
def Written.Graded : Written → Prop
  | .leaf t e => Token.leaf? t = some e
  | .closure t stretch params body => t.lexeme = word .subWord ∧
    Act.closureTail ⟨stretch, .zero, t.stop⟩ = .ok ((params, body), ⟨[], .zero, endOf t.stop stretch⟩)
  | .array opening elements closing =>
    opening.lexeme = mark .lbracket ∧ elements.Graded ∧ closing.lexeme = mark .rbracket
  | .parens opening inner closing =>
    opening.lexeme = mark .lparen ∧ inner.Graded ∧ closing.lexeme = mark .rparen
  | .call callee opening args closing => callee.Graded ∧ prefixLevel < callee.level ∧
    opening.lexeme = mark .lparen ∧ args.Graded ∧ closing.lexeme = mark .rparen
  | .index object opening position closing => object.Graded ∧ prefixLevel < object.level ∧
    opening.lexeme = mark .lbracket ∧ position.Graded ∧ closing.lexeme = mark .rbracket
  | .unary op sign operand => (∃ p, sign.lexeme = .punct p ∧ (p, op) ∈ prefixTable) ∧
    operand.Graded ∧ prefixLevel ≤ operand.level
  | .binary op level left sign right => (∃ p, sign.lexeme = .punct p ∧ (p, level, op) ∈ infixTable) ∧
    left.Graded ∧ level ≤ left.level ∧ right.Graded ∧ level < right.level
  | .assign op target sign value => (∃ p, sign.lexeme = .punct p ∧ (p, op) ∈ assignTable) ∧
    target.Graded ∧ 0 < target.level ∧ isTarget target.tree = true ∧ value.Graded
  | .declare t name => t.lexeme = word .myWord ∧ ∃ x, name.lexeme = .ident x
  | .declareAs t name sign value => t.lexeme = word .myWord ∧ (∃ x, name.lexeme = .ident x) ∧
    sign.lexeme = mark .assign ∧ value.Graded

def Row.Graded : Row → Prop
  | .none => True
  | .one e => e.Graded
  | .more e comma rest => e.Graded ∧ comma.lexeme = mark .comma ∧ rest.Graded

end

/-- The expression is no assignment, and its operators outside parentheses lie above `min`. -/
def Written.Above (min : Nat) (c : Written) : Prop := 0 < c.level ∧ ∀ level ∈ c.spine, min < level

/-- The lexeme is no call, no index and no infix operator above `min`. -/
def Ends (min : Nat) (l : Lexeme) : Prop :=
  l ≠ mark .lparen ∧ l ≠ mark .lbracket ∧ ∀ p level op, l = .punct p → (p, level, op) ∈ infixTable → level ≤ min

end KestrelLang.Parser
