import KestrelLang.Grammar.Tree
import KestrelLang.Text.Strings

/-! # Compile errors

* `CompileErrorKind` — the classes of errors.
* `CompileCause` — why a tree has no code, with its class and its wording.
* `CompileError` — a cause with its place and the name of the text. -/

namespace KestrelLang

/-- The classes of compile errors; a host may use codes of its own. -/
inductive CompileErrorKind where
  | statementOutsideLoop | tailCallOutsideSub | duplicateSubroutine | unsupported
  | unknown (code : Int)
  deriving DecidableEq, Repr, Inhabited

namespace CompileErrorKind

def ofCode : Int → CompileErrorKind
  | 0 => .statementOutsideLoop
  | 1 => .tailCallOutsideSub
  | 2 => .duplicateSubroutine
  | 3 => .unsupported
  | code => .unknown code

def text : CompileErrorKind → String
  | .statementOutsideLoop => "StatementOutsideLoop"
  | .tailCallOutsideSub => "TailCallOutsideSub"
  | .duplicateSubroutine => "DuplicateSubroutine"
  | .unsupported => "Unsupported"
  | .unknown code => s!"CompileErrorKind({code})"

end CompileErrorKind

inductive CompileCause where
  /-- A verb without a label needs a loop around it. -/
  | outsideLoop (verb : Verb)
  /-- A tail call needs a sub around it. -/
  | tailCallOutsideSub (callee : String)
  /-- Two subs of one name. -/
  | duplicateSub (name : String)
  /-- A verb that the language does not have. -/
  | unknownVerb (spelling : String)
  /-- A declaration of something that is not a name. -/
  | declaresNoName
  /-- An assignment to something that is neither a name nor an element. -/
  | invalidTarget (target : Expr)
  /-- A statement in a place for expressions. -/
  | expectedExpression (found : Stmt)
  /-- A complaint of the host in its own words. -/
  | custom (kind : CompileErrorKind) (message : String)
  deriving Inhabited

namespace CompileCause

def kind : CompileCause → CompileErrorKind
  | .outsideLoop _ => .statementOutsideLoop
  | .tailCallOutsideSub _ => .tailCallOutsideSub
  | .duplicateSub _ => .duplicateSubroutine
  | .unknownVerb _ | .declaresNoName | .invalidTarget _ | .expectedExpression _ => .unsupported
  | .custom kind _ => kind

def nodeText (nodeType : String) : String :=
  if nodeType = "" then "<nil>" else "*ast." ++ nodeType

def message : CompileCause → String
  | .outsideLoop verb => verb.text ++ " statement used outside of a loop"
  | .tailCallOutsideSub callee => "goto &" ++ callee ++ " used outside of a subroutine"
  | .duplicateSub name => "subroutine " ++ name ++ " already defined"
  | .unknownVerb spelling => "unknown control flow verb " ++ Text.quote spelling
  | .declaresNoName => "my requires a variable name"
  | .invalidTarget target => "invalid assignment target " ++ nodeText target.nodeType
  | .expectedExpression found => "expected expression, got " ++ nodeText found.nodeType
  | .custom _ message => message

end CompileCause

def located (origin : String) (span : Span) (text : String) : String :=
  if span.isZero then text
  else if origin = "" then "line " ++ span.text ++ ": " ++ text
  else origin ++ ":" ++ span.text ++ ": " ++ text

/-- A cause, its place, and the name of the text (empty when it is not known). -/
structure CompileError where
  cause : CompileCause
  span : Span
  origin : String
  deriving Inhabited

namespace CompileError

def kind (e : CompileError) : CompileErrorKind := e.cause.kind

def summary (e : CompileError) : String := e.cause.message

def message (e : CompileError) : String := located e.origin e.span e.summary

end CompileError

end KestrelLang
