import KestrelLang.Proofs.Code.Reached
import KestrelLang.Proofs.Grammar.Nesting

/-! # Closures in the order of the text

A lowering has done with a closure when it has done with its body, with the step of a loop after the body of the loop,
and with the statement that a modifier follows after the modifier. So it comes to the closures of a text in the order in
which they start only if no two of them are in such places.

* `Expr.Straight`, `Stmt.Straight`, … — trees without two such closures.
* `Ascending` — closures in the order in which they start.
* `Between` — closures that start between two places, with a condition for being in order.
* `Arranged` — nodes that follow one another have their closures between two places.
* `ascending_finished_iff` — the closures of a text are lowered in order exactly if its tree is straight. -/

namespace KestrelLang

open TreeNode

/-! ## Straight trees -/

mutual

def Expr.Straight : Expr → Prop
  | .missing | .undefined _ | .int .. | .float .. | .str .. | .ident .. => True
  | .array elements _ => exprsStraight elements
  | .index object index _ => object.Straight ∧ index.Straight
  | .unary _ operand _ => operand.Straight
  | .binary _ left right _ | .assign _ left right _ => left.Straight ∧ right.Straight
  | .call callee args _ => callee.Straight ∧ exprsStraight args
  | .closure _ body _ => closuresOf body.finished = []

def exprsStraight : List Expr → Prop
  | [] => True
  | e :: es => e.Straight ∧ exprsStraight es

/-- No closure in the statement has another one inside, no loop has closures both in its step and in its body, and no
    statement with a modifier has closures both in itself and in the modifier. -/
def Stmt.Straight : Stmt → Prop
  | .missing | .verb .. => True
  | .expr e | .ret e _ => e.Straight
  | .block body | .bare _ body _ | .sub _ _ body _ => body.Straight
  | .whileLoop _ e _ body _ | .foreachLoop _ _ e body _ => e.Straight ∧ body.Straight
  | .forLoop _ init test step body _ =>
    init.Straight ∧ test.Straight ∧ body.Straight ∧ step.Straight ∧
      (closuresOf step.finished = [] ∨ closuresOf body.finished = [])
  | .ifChain test _ body clauses otherwise _ =>
    test.Straight ∧ body.Straight ∧
      (body.span.start < test.span.start → closuresOf body.finished = [] ∨ closuresOf test.finished = []) ∧
      clausesStraight clauses ∧ otherwise.Straight
  | .tailCall callee args reuse _ => callee.Straight ∧ (reuse = false → exprsStraight args)

def Block.Straight : Block → Prop
  | .missing => True
  | .mk body _ => stmtsStraight body

def stmtsStraight : List Stmt → Prop
  | [] => True
  | s :: rest => s.Straight ∧ stmtsStraight rest

def clausesStraight : List Clause → Prop
  | [] => True
  | .mk test body :: rest => test.Straight ∧ body.Straight ∧ clausesStraight rest

end

/-- No closure of the module has another one inside, no loop has closures both in its step and in its body, and no
    statement with a modifier has closures both in itself and in the modifier. -/
def Module.Straight (m : Module) : Prop := stmtsStraight m.body

/-! ## Closures between two places -/

/-- The closures among the definitions come in the order in which they start. -/
def Ascending (ds : List Definition) : Prop := (closuresOf ds).Pairwise (·.span.start < ·.span.start)

/-- The closures among the definitions start between two places, and they come in the order in which they start exactly
    if `q` holds. -/
structure Between (lo : Position) (ds : List Definition) (hi : Position) (q : Prop) : Prop where
  within : ∀ d ∈ closuresOf ds, lo ≤ d.span.start ∧ d.span.start < hi
  ascending_iff : Ascending ds ↔ q

section Lists

variable {lo mid hi lo' hi' : Position} {ds ds' : List Definition} {d : Definition} {q q' : Prop}

theorem closuresOf_append (ds ds' : List Definition) : closuresOf (ds ++ ds') = closuresOf ds ++ closuresOf ds' :=
  List.filter_append ..

theorem closuresOf_append_sub (h : d.name?.isSome) : closuresOf (ds ++ [d]) = closuresOf ds := by
  have hnamed : d.name?.isNone = false := by rw [← Option.not_isSome, h, Bool.not_true]
  simp [closuresOf, hnamed]

theorem ascending_append : Ascending (ds ++ ds') ↔
    Ascending ds ∧ Ascending ds' ∧ ∀ d ∈ closuresOf ds, ∀ d' ∈ closuresOf ds', d.span.start < d'.span.start := by
  unfold Ascending
  rw [closuresOf_append, List.pairwise_append]

theorem Between.nil : Between lo [] hi True := ⟨nofun, iff_of_true .nil trivial⟩

theorem Between.widen (h : Between lo ds hi q) (hlo : lo' ≤ lo) (hhi : hi ≤ hi') : Between lo' ds hi' q :=
  ⟨fun d hd => ⟨hlo.trans (h.within d hd).1, (h.within d hd).2.trans_le hhi⟩, h.ascending_iff⟩

theorem Between.append (h : Between lo ds mid q) (h' : Between mid ds' hi q') (hlo : lo ≤ mid) (hhi : mid ≤ hi) :
    Between lo (ds ++ ds') hi (q ∧ q') where
  within := by
    rw [closuresOf_append]
    exact List.forall_mem_append.mpr ⟨(h.widen le_rfl hhi).within, (h'.widen hlo le_rfl).within⟩
  ascending_iff := by
    have hacross : ∀ d ∈ closuresOf ds, ∀ d' ∈ closuresOf ds', d.span.start < d'.span.start := fun d hd d' hd' =>
      (h.within d hd).2.trans_le (h'.within d' hd').1
    rw [ascending_append, h.ascending_iff, h'.ascending_iff, and_iff_left hacross]

theorem Between.swap (h : Between lo ds mid q) (h' : Between mid ds' hi q') (hlo : lo ≤ mid) (hhi : mid ≤ hi) :
    Between lo (ds' ++ ds) hi (q' ∧ q ∧ (closuresOf ds = [] ∨ closuresOf ds' = [])) where
  within := by
    rw [closuresOf_append]
    exact List.forall_mem_append.mpr ⟨(h'.widen hlo le_rfl).within, (h.widen le_rfl hhi).within⟩
  ascending_iff := by
    rw [ascending_append, h.ascending_iff, h'.ascending_iff]
    refine and_congr_right fun _ => and_congr_right fun _ => ⟨fun hacross => ?_, ?_⟩
    · by_contra hsome
      obtain ⟨hsome, hsome'⟩ := not_or.mp hsome
      obtain ⟨d, hd⟩ := List.exists_mem_of_ne_nil _ hsome
      obtain ⟨d', hd'⟩ := List.exists_mem_of_ne_nil _ hsome'
      exact ((h.within d hd).2.trans_le (h'.within d' hd').1).asymm (hacross d' hd' d hd)
    · rintro (hnone | hnone) d' hd' d hd
      · rw [hnone] at hd
        cases hd
      · rw [hnone] at hd'
        cases hd'

/-- A closure is lowered after those inside of it, which start behind its start. -/
theorem Between.closure (h : Between d.span.start ds hi q) (hd : d.name? = none) (hlo : lo ≤ d.span.start)
    (hlt : d.span.start < hi) : Between lo (ds ++ [d]) hi (closuresOf ds = []) := by
  have hown : closuresOf [d] = [d] := by simp [closuresOf, hd]
  constructor
  · rw [closuresOf_append, hown]
    exact List.forall_mem_append.mpr ⟨(h.widen hlo le_rfl).within, List.forall_mem_singleton.mpr ⟨hlo, hlt⟩⟩
  · rw [ascending_append, hown]
    constructor
    · rintro ⟨-, -, hacross⟩
      refine List.eq_nil_iff_forall_not_mem.mpr fun inner hinner => ?_
      exact absurd (hacross inner hinner d List.mem_cons_self) (h.within inner hinner).1.not_gt
    · intro hnone
      unfold Ascending
      rw [hnone, hown]
      exact ⟨.nil, List.pairwise_singleton _ _, List.forall_mem_nil _⟩

theorem Between.sub (h : Between lo ds hi q) (hd : d.name?.isSome) : Between lo (ds ++ [d]) hi q where
  within := by
    rw [closuresOf_append_sub hd]
    exact h.within
  ascending_iff := by
    rw [Ascending, closuresOf_append_sub hd]
    exact h.ascending_iff

end Lists

/-! ## Nodes and their closures -/

/-- Wherever the nodes follow one another, the closures start between the same two places, and they come in the order in
    which they start exactly if `q` holds. -/
def Arranged (T : List Token) (ns : List TreeNode) (ds : List Definition) (q : Prop) : Prop :=
  ∀ lo hi, lo ≤ hi → Follow T lo ns hi → Between lo ds hi q

namespace Arranged

variable {T : List Token} {n : TreeNode} {ns ms : List TreeNode} {ds ds' : List Definition} {d : Definition} {q q' : Prop}

theorem nothing : Arranged T ns [] True := fun _ _ _ _ => .nil

theorem append (h : Arranged T ns ds q) (h' : Arranged T ms ds' q') : Arranged T (ns ++ ms) (ds ++ ds') (q ∧ q') := by
  intro lo hi hle hfollow
  obtain ⟨mid, hlo, hhi, hns, hms⟩ := hfollow.split hle
  exact (h _ _ hlo hns).append (h' _ _ hhi hms) hlo hhi

theorem behind (h : Arranged T ns ds q) (ms : List TreeNode) : Arranged T (ms ++ ns) ds q := by
  intro lo hi hle hfollow
  obtain ⟨mid, hlo, hhi, -, hns⟩ := hfollow.split hle
  exact (h _ _ hhi hns).widen hlo le_rfl

theorem swap (h : Arranged T ns ds q) (h' : Arranged T ms ds' q') :
    Arranged T (ns ++ ms) (ds' ++ ds) (q' ∧ q ∧ (closuresOf ds = [] ∨ closuresOf ds' = [])) := by
  intro lo hi hle hfollow
  obtain ⟨mid, hlo, hhi, hns, hms⟩ := hfollow.split hle
  exact (h _ _ hlo hns).swap (h' _ _ hhi hms) hlo hhi

/-- What holds of the nodes right below a node holds of the node. -/
theorem node (h : Arranged T n.inText ds q) : Arranged T [n] ds q := by
  intro lo hi _ hfollow
  have htidy := hfollow.tidy n List.mem_cons_self
  obtain ⟨hlo, hhi⟩ := hfollow.within n List.mem_cons_self
  exact (h _ _ htidy.edges.lt.le htidy.follow).widen hlo hhi

theorem closure (h : Arranged T n.inText ds q) (hd : d.name? = none) (hspan : d.span = n.span) :
    Arranged T [n] (ds ++ [d]) (closuresOf ds = []) := by
  intro lo hi _ hfollow
  have htidy := hfollow.tidy n List.mem_cons_self
  obtain ⟨hlo, hhi⟩ := hfollow.within n List.mem_cons_self
  have hinside := h _ _ htidy.edges.lt.le htidy.follow
  rw [← hspan] at hinside hlo hhi
  have hlt : d.span.start < d.span.stop := hspan ▸ htidy.edges.lt
  exact (hinside.widen le_rfl hhi).closure hd hlo (hlt.trans_le hhi)

theorem sub (h : Arranged T ns ds q) (hd : d.name?.isSome) : Arranged T ns (ds ++ [d]) q :=
  fun _ _ hle hfollow => (h _ _ hle hfollow).sub hd

theorem congr (h : Arranged T ns ds q) (hds : ds' = ds) (hq : q' ↔ q) : Arranged T ns ds' q' := by
  intro lo hi hle hfollow
  have hbetween := h lo hi hle hfollow
  subst hds
  exact ⟨hbetween.within, hbetween.ascending_iff.trans hq.symm⟩

/-- A test and the statements under it. They come in the order of the text unless the test is that of a modifier. -/
theorem arm {test : Expr} {body : Block} (h : Arranged T (ofExpr test) ds q) (h' : Arranged T (ofBlock body) ds' q') :
    Arranged T
      (if body.span.start < test.span.start then ofBlock body ++ ofExpr test else ofExpr test ++ ofBlock body) (ds ++ ds')
      (q ∧ q' ∧ (body.span.start < test.span.start → closuresOf ds' = [] ∨ closuresOf ds = [])) := by
  split
  · rename_i hbehind
    exact (h'.swap h).congr rfl (by simp only [hbehind, forall_const])
  · rename_i hahead
    exact (h.append h').congr rfl (by simp only [hahead, false_imp_iff, and_true])

end Arranged

section Trees

variable {T : List Token}

mutual

theorem Expr.arranged (e : Expr) : Arranged T (ofExpr e) e.finished e.Straight := by
  match e with
  | .missing | .undefined _ | .int .. | .float .. | .str .. | .ident .. =>
    rw [Expr.finished, Expr.Straight]
    exact .nothing
  | .array elements _ =>
    rw [Expr.finished, Expr.Straight]
    exact .node (exprs_arranged elements)
  | .index left right _ | .binary _ left right _ | .assign _ left right _ =>
    rw [Expr.finished, Expr.Straight]
    exact .node (left.arranged.append right.arranged)
  | .unary _ operand _ =>
    rw [Expr.finished, Expr.Straight]
    exact .node operand.arranged
  | .call callee args _ =>
    rw [Expr.finished, Expr.Straight]
    exact .node (callee.arranged.append (exprs_arranged args))
  | .closure params body _ =>
    rw [Expr.finished, Expr.Straight]
    exact .closure (body.arranged.behind (params.map .name)) rfl rfl

theorem exprs_arranged (es : List Expr) : Arranged T (es.flatMap ofExpr) (exprsFinished es) (exprsStraight es) := by
  match es with
  | [] =>
    rw [exprsFinished, exprsStraight]
    exact .nothing
  | e :: es =>
    rw [exprsFinished, exprsStraight]
    exact e.arranged.append (exprs_arranged es)

theorem Stmt.arranged (s : Stmt) : Arranged T (ofStmt s) s.finished s.Straight := by
  match s with
  | .missing | .verb .. =>
    rw [Stmt.finished, Stmt.Straight]
    exact .nothing
  | .expr e =>
    rw [Stmt.finished, Stmt.Straight]
    exact e.arranged
  | .ret e _ =>
    rw [Stmt.finished, Stmt.Straight]
    exact .node e.arranged
  | .block body =>
    rw [Stmt.finished, Stmt.Straight]
    exact body.arranged
  | .bare label body _ =>
    rw [Stmt.finished, Stmt.Straight]
    exact .node (body.arranged.behind (ofLabel label))
  | .whileLoop label e _ body _ =>
    rw [Stmt.finished, Stmt.Straight]
    exact .node ((e.arranged.behind (ofLabel label)).append body.arranged)
  | .foreachLoop label item e body _ =>
    rw [Stmt.finished, Stmt.Straight]
    exact .node ((e.arranged.behind (ofLabel label ++ [.name item])).append body.arranged)
  -- In the text the step comes before the body, and it is lowered after it.
  | .forLoop label init test step body span =>
    rw [Stmt.finished, Stmt.Straight]
    have hparts : (TreeNode.stmt (.forLoop label init test step body span)).inText =
        ofLabel label ++ ofStmt init ++ (ofExpr test ++ (ofExpr step ++ ofBlock body)) := by
      simp only [inText, parts, stmtParts, List.append_assoc]
    have hround := test.arranged.append (step.arranged.swap body.arranged)
    exact .node (hparts ▸ (init.arranged.behind (ofLabel label)).append hround)
  | .ifChain test _ body clauses otherwise _ =>
    rw [Stmt.finished, Stmt.Straight]
    have hall := ((test.arranged.arm body.arranged).append (clauses_arranged clauses)).append otherwise.arranged
    exact .node (hall.congr (by simp only [List.append_assoc]) (by simp only [and_assoc]))
  -- Arguments that are used again are not lowered, so they add nothing.
  | .tailCall callee args reuse _ =>
    rw [Stmt.finished, Stmt.Straight]
    refine .node (callee.arranged.append ?_)
    cases reuse with
    | false => exact (exprs_arranged args).congr rfl (forall_prop_of_true rfl)
    | true => exact Arranged.nothing.congr rfl (iff_of_true nofun trivial)
  | .sub own params body _ =>
    rw [Stmt.finished, Stmt.Straight]
    exact .node (.sub (body.arranged.behind ([.name own] ++ params.map .name)) rfl)

theorem Block.arranged (b : Block) : Arranged T (ofBlock b) b.finished b.Straight := by
  match b with
  | .missing =>
    rw [Block.finished, Block.Straight]
    exact .nothing
  | .mk body _ =>
    rw [Block.finished, Block.Straight]
    exact .node (stmts_arranged body)

theorem stmts_arranged (stmts : List Stmt) :
    Arranged T (stmts.flatMap ofStmt) (stmtsFinished stmts) (stmtsStraight stmts) := by
  match stmts with
  | [] =>
    rw [stmtsFinished, stmtsStraight]
    exact .nothing
  | s :: rest =>
    rw [stmtsFinished, stmtsStraight]
    exact s.arranged.append (stmts_arranged rest)

theorem clauses_arranged (clauses : List Clause) :
    Arranged T (clauses.flatMap ofClause) (clausesFinished clauses) (clausesStraight clauses) := by
  match clauses with
  | [] =>
    rw [clausesFinished, clausesStraight]
    exact .nothing
  | .mk test body :: rest =>
    rw [clausesFinished, clausesStraight]
    have hall := (test.arranged.append body.arranged).append (clauses_arranged rest)
    exact hall.congr (List.append_assoc ..).symm and_assoc.symm

end

end Trees

/-- The lowering of a text has done with its closures in the order in which they start exactly if its tree is straight. -/
theorem ascending_finished_iff {name : String} {text : List Char} {m : Module}
    (h : Parser.parseModule name text = .ok m) : Ascending m.finished ↔ m.Straight := by
  obtain ⟨l, hi, -, hfollow⟩ := Parser.follow_of_parseModule h
  have hwide : Follow l.tokens .first m.nodes (max .first hi) := hfollow.widen le_rfl (le_max_right _ _)
  exact (stmts_arranged m.body _ _ (le_max_left _ _) hwide).ascending_iff

end KestrelLang
