import KestrelLang.Grammar.Span

/-! # Trees

* `Expr`, `Stmt`, `Block`, `Clause` — the tree of a script, each node with its span.
* `Module` — a whole script.
* `UnaryOp`, `BinaryOp`, `AssignOp`, `Verb` — the operators and the control-flow verbs.

A tree built by a host may leave a place empty, which is what the `missing` constructors are for, and
may name operators and verbs that the language does not have, which are kept by their spelling. Trees
share no nodes: a node stands in one place, and what is said of it is said of that place. -/

namespace KestrelLang

/-! ## Operators and verbs -/

inductive UnaryOp where
  | neg | not
  | other (spelling : String)
  deriving DecidableEq, Repr, Inhabited

def UnaryOp.text : UnaryOp → String
  | .neg => "-"
  | .not => "!"
  | .other spelling => spelling

inductive BinaryOp where
  | or | and
  | eq | ne | lt | le | gt | ge
  | range
  | add | sub | concat
  | mul | div | mod
  | other (spelling : String)
  deriving DecidableEq, Repr, Inhabited

def BinaryOp.text : BinaryOp → String
  | .or => "||"
  | .and => "&&"
  | .eq => "=="
  | .ne => "!="
  | .lt => "<"
  | .le => "<="
  | .gt => ">"
  | .ge => ">="
  | .range => ".."
  | .add => "+"
  | .sub => "-"
  | .concat => "."
  | .mul => "*"
  | .div => "/"
  | .mod => "%"
  | .other spelling => spelling

/-- The ways to assign: a declaration, a plain assignment, and the compound ones. -/
inductive AssignOp where
  | declare | assign | add | sub | concat
  | other (spelling : String)
  deriving DecidableEq, Repr, Inhabited

namespace AssignOp

def text : AssignOp → String
  | .declare => "my"
  | .assign => "="
  | .add => "+="
  | .sub => "-="
  | .concat => ".="
  | .other spelling => spelling

def binary? : AssignOp → Option BinaryOp
  | .add => some .add
  | .sub => some .sub
  | .concat => some .concat
  | _ => none

end AssignOp

inductive Verb where
  | last | next | redo | goto
  | other (spelling : String)
  deriving DecidableEq, Repr, Inhabited

def Verb.text : Verb → String
  | .last => "last"
  | .next => "next"
  | .redo => "redo"
  | .goto => "goto"
  | .other spelling => spelling

/-! ## Nodes -/

structure Name where
  text : String
  span : Span
  deriving DecidableEq, Repr, Inhabited

/-- The text of a label; no label and an empty one are the same. -/
def labelText : Option Name → String
  | some name => name.text
  | none => ""

mutual

inductive Expr where
  | missing
  | ident (name : String) (span : Span)
  | str (value : String) (span : Span)
  | int (value : Int64) (span : Span)
  | float (value : Float) (span : Span)
  | undefined (span : Span)
  | array (elements : List Expr) (span : Span)
  | index (object index : Expr) (span : Span)
  | unary (op : UnaryOp) (operand : Expr) (span : Span)
  | binary (op : BinaryOp) (left right : Expr) (span : Span)
  | assign (op : AssignOp) (left right : Expr) (span : Span)
  | call (callee : Expr) (args : List Expr) (span : Span)
  | closure (params : List Name) (body : Block) (span : Span)

/-- Statements. In an `ifChain`, `negate` turns the first test around; in a `tailCall`, `reuse` passes
    the current arguments on. -/
inductive Stmt where
  | missing
  | expr (e : Expr)
  | block (body : Block)
  | bare (label : Option Name) (body : Block) (span : Span)
  | whileLoop (label : Option Name) (test : Expr) (negate : Bool) (body : Block) (span : Span)
  | forLoop (label : Option Name) (init : Stmt) (test step : Expr) (body : Block) (span : Span)
  | foreachLoop (label : Option Name) (item : Name) (iterable : Expr) (body : Block) (span : Span)
  | ifChain (test : Expr) (negate : Bool) (body : Block) (clauses : List Clause) (otherwise : Block)
      (span : Span)
  | verb (kind : Verb) (label : Option Name) (span : Span)
  | tailCall (callee : Expr) (args : List Expr) (reuse : Bool) (span : Span)
  | ret (argument : Expr) (span : Span)
  | sub (name : Name) (params : List Name) (body : Block) (span : Span)

inductive Block where
  | missing
  | mk (body : List Stmt) (span : Span)

inductive Clause where
  | mk (test : Expr) (body : Block)

end

instance : Inhabited Expr := ⟨.missing⟩

instance : Inhabited Stmt := ⟨.missing⟩

instance : Inhabited Block := ⟨.missing⟩

def Expr.span : Expr → Span
  | .missing => .zero
  | .ident _ s | .str _ s | .int _ s | .float _ s | .undefined s | .array _ s | .index _ _ s
  | .unary _ _ s | .binary _ _ _ s | .assign _ _ _ s | .call _ _ s | .closure _ _ s => s

def Expr.isMissing : Expr → Bool
  | .missing => true
  | _ => false

def Block.span : Block → Span
  | .missing => .zero
  | .mk _ s => s

/-- The statements of a block; a block that is not there has none. -/
def Block.stmts : Block → List Stmt
  | .missing => []
  | .mk body _ => body

def Stmt.span : Stmt → Span
  | .missing => .zero
  | .expr e => e.span
  | .block b => b.span
  | .bare _ _ s | .whileLoop _ _ _ _ s | .forLoop _ _ _ _ _ s | .foreachLoop _ _ _ _ s
  | .ifChain _ _ _ _ _ s | .verb _ _ s | .tailCall _ _ _ s | .ret _ s | .sub _ _ _ s => s

structure Module where
  body : List Stmt
  span : Span
  deriving Inhabited

/-! ## Names of nodes -/

def Expr.nodeType : Expr → String
  | .missing => ""
  | .ident .. => "Identifier"
  | .str .. => "StringLiteral"
  | .int .. => "IntegerLiteral"
  | .float .. => "FloatLiteral"
  | .undefined .. => "UndefLiteral"
  | .array .. => "ArrayLiteral"
  | .index .. => "IndexExpression"
  | .unary .. => "UnaryExpression"
  | .binary .. => "BinaryExpression"
  | .assign .. => "AssignmentExpression"
  | .call .. => "FunctionCall"
  | .closure .. => "SubExpression"

def Stmt.nodeType : Stmt → String
  | .missing => ""
  | .expr e => e.nodeType
  | .block .. => "Block"
  | .bare .. => "BareBlock"
  | .whileLoop .. => "WhileLoop"
  | .forLoop .. => "ForLoop"
  | .foreachLoop .. => "ForeachLoop"
  | .ifChain .. => "IfStatement"
  | .verb .. => "ControlFlowStatement"
  | .tailCall .. => "TailCallStatement"
  | .ret .. => "ReturnStatement"
  | .sub .. => "SubroutineDefinition"

end KestrelLang
