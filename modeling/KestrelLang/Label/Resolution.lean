import KestrelLang.Code.CompileError
import KestrelLang.Label.Scope
import KestrelLang.Text.Strings

/-! # Label resolution

* `VerbUse` — a verb of a unit with the scope it aims at, if that scope belongs to the unit.
* `Item` — a scope or a verb, met in the order of the text.
* `walk` — goes through the statements of a unit, not into subs.
* `Resolution` — the scopes and verbs of a unit; `labels`, `stats` and `warnings` are views of it. -/

namespace KestrelLang.Label

/-- A verb of a unit. `boundary` is the number of the scope it aims at; without one the verb aims
    at a scope of a caller. -/
structure VerbUse where
  verb : Verb
  marker : MarkerKind
  label : String
  boundary : Option Nat
  span : Span
  deriving DecidableEq, Repr, Inhabited

def VerbUse.isLocal (v : VerbUse) : Bool := v.boundary.isSome

/-- What a walk through a unit meets. A scope comes with the labels of the scopes around it. -/
inductive Item where
  | scope (s : Scope) (around : List String)
  | verb (v : VerbUse)
  deriving DecidableEq, Repr, Inhabited

structure UnitInfo where
  inSub : Bool
  origin : String
  deriving DecidableEq, Repr, Inhabited

def calleeName : Expr → String
  | .ident name _ => name
  | _ => "<expr>"

def openScope (enclosing : List Scope) (next : Nat) (node : String) (label : Option Name)
    (isLoop : Bool) (span : Span) : Scope :=
  ⟨next, node, labelText label, isLoop, enclosing.head?.map (·.id), span⟩

def scopeItem (enclosing : List Scope) (s : Scope) : Item :=
  .scope s (enclosing.map (·.label))

/-- Finds the scope that a verb aims at. A verb without a label has to have a loop around it. -/
def classify (info : UnitInfo) (enclosing : List Scope) (verb : Verb) (label : String) (span : Span) :
    Except CompileError VerbUse :=
  match MarkerKind.ofVerb? verb with
  | none => .error ⟨.unknownVerb verb.text, span, info.origin⟩
  | some marker =>
    match boundary? Scope.label Scope.isLoop label enclosing with
    | some s => .ok ⟨verb, marker, label, some s.id, span⟩
    | none =>
      if label = "" then .error ⟨.outsideLoop verb, span, info.origin⟩
      else .ok ⟨verb, marker, label, none, span⟩

mutual

/-- The items of one statement; `next` is the number of the next scope. -/
def walkStmt (info : UnitInfo) (enclosing : List Scope) (next : Nat) :
    Stmt → Except CompileError (List Item × Nat)
  | .verb kind label span => do
    let use ← classify info enclosing kind (labelText label) span
    return ([.verb use], next)
  | .tailCall callee _ _ span =>
    if info.inSub then .ok ([], next)
    else .error ⟨.tailCallOutsideSub (calleeName callee), span, info.origin⟩
  | .bare label body span => do
    let s := openScope enclosing next "BareBlock" label false span
    let (items, next') ← walkBlock info (s :: enclosing) (next + 1) body
    return (scopeItem enclosing s :: items, next')
  | .whileLoop label _ _ body span => do
    let s := openScope enclosing next "WhileLoop" label true span
    let (items, next') ← walkBlock info (s :: enclosing) (next + 1) body
    return (scopeItem enclosing s :: items, next')
  | .forLoop label init _ _ body span => do
    let s := openScope enclosing next "ForLoop" label true span
    -- The first part of the header stands inside the scope of the loop.
    let (first, next') ← walkStmt info (s :: enclosing) (next + 1) init
    let (items, next'') ← walkBlock info (s :: enclosing) next' body
    return (scopeItem enclosing s :: first ++ items, next'')
  | .foreachLoop label _ _ body span => do
    let s := openScope enclosing next "ForeachLoop" label true span
    let (items, next') ← walkBlock info (s :: enclosing) (next + 1) body
    return (scopeItem enclosing s :: items, next')
  | .block body => walkBlock info enclosing next body
  | .ifChain _ _ body clauses otherwise _ => do
    let (first, next1) ← walkBlock info enclosing next body
    let (more, next2) ← walkClauses info enclosing next1 clauses
    let (last, next3) ← walkBlock info enclosing next2 otherwise
    return (first ++ more ++ last, next3)
  -- A sub is a unit of its own and has a walk of its own.
  | .missing | .expr _ | .ret _ _ | .sub .. => .ok ([], next)

def walkBlock (info : UnitInfo) (enclosing : List Scope) (next : Nat) :
    Block → Except CompileError (List Item × Nat)
  | .missing => .ok ([], next)
  | .mk body _ => walkStmts info enclosing next body

def walkStmts (info : UnitInfo) (enclosing : List Scope) (next : Nat) :
    List Stmt → Except CompileError (List Item × Nat)
  | [] => .ok ([], next)
  | s :: rest => do
    let (first, next1) ← walkStmt info enclosing next s
    let (more, next2) ← walkStmts info enclosing next1 rest
    return (first ++ more, next2)

def walkClauses (info : UnitInfo) (enclosing : List Scope) (next : Nat) :
    List Clause → Except CompileError (List Item × Nat)
  | [] => .ok ([], next)
  | .mk _ body :: rest => do
    let (first, next1) ← walkBlock info enclosing next body
    let (more, next2) ← walkClauses info enclosing next1 rest
    return (first ++ more, next2)

end

structure Resolution where
  items : List Item
  origin : String
  deriving DecidableEq, Repr, Inhabited

def resolve (info : UnitInfo) (body : List Stmt) : Except CompileError Resolution := do
  let (items, _) ← walkStmts info [] 0 body
  return ⟨items, info.origin⟩

/-! ## Views -/

structure LabelStat where
  label : String
  definitions : Nat
  locals : Nat
  nonLocals : Nat
  deriving DecidableEq, Repr, Inhabited

namespace Resolution

def scopes (r : Resolution) : List Scope :=
  r.items.filterMap fun
    | .scope s _ => some s
    | .verb _ => none

def verbs (r : Resolution) : List VerbUse :=
  r.items.filterMap fun
    | .scope _ _ => none
    | .verb v => some v

def labels (r : Resolution) : List String :=
  Text.sortTexts ((r.scopes.map (·.label)).filter (· ≠ ""))

/-- A remark for each labeled scope inside a scope of the same label. -/
def warnings (r : Resolution) : List String :=
  r.items.filterMap fun
    | .scope s around =>
      if s.label ≠ "" && around.contains s.label then
        some (located r.origin s.span
          ("label " ++ s.label ++ " shadows an enclosing label of the same name"))
      else none
    | .verb _ => none

def stat (r : Resolution) (label : String) : LabelStat :=
  { label := label
    definitions := r.scopes.countP (·.label = label)
    locals := r.verbs.countP fun v => v.label = label && v.isLocal
    nonLocals := r.verbs.countP fun v => v.label = label && !v.isLocal }

/-- Every label that a scope carries or a verb names, sorted. -/
def usedLabels (r : Resolution) : List String :=
  Text.sortTexts ((r.scopes.map (·.label) ++ r.verbs.map (·.label)).filter (· ≠ ""))

def stats (r : Resolution) : List LabelStat :=
  r.usedLabels.map r.stat

end Resolution

def LabelStat.add (total s : LabelStat) : LabelStat :=
  { total with
    definitions := total.definitions + s.definitions
    locals := total.locals + s.locals
    nonLocals := total.nonLocals + s.nonLocals }

def sumStat (rs : List Resolution) (label : String) : LabelStat :=
  rs.foldl (fun total r => total.add (r.stat label)) ⟨label, 0, 0, 0⟩

def report (rs : List Resolution) : List LabelStat :=
  (Text.sortTexts (rs.flatMap Resolution.usedLabels)).map (sumStat rs)

end KestrelLang.Label
