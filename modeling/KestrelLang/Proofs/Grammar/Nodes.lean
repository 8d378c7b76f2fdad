import Mathlib.Data.Prod.Lex
import Mathlib.Data.List.Perm.Basic
import KestrelLang.Grammar.Token
import KestrelLang.Grammar.Tree

/-! # The nodes of a tree and their places

* `Position` is ordered by line and then by column.
* `TreeNode` — a name, an expression, a statement or a block of a tree, with the nodes right below it.
* `TreeNode.inText` — the nodes right below a node in the order of the text.
* `nodeAt?` — the node at the end of a path.
* `Edges` — two places with a token that starts at the first and one that stops at the second, further on.
* `TreeNode.Tidy`, `Follow` — the spans below a node lie within its span and follow one another.
* `Follow.split` — where some of the nodes end, the others begin.
* `Lies` — the spans of tidy nodes lie between two places and apart from each other.
* `Lies.at_path`, `Lies.contains`, `Lies.apart_of_parting` — what that says about nodes that are far from each other. -/

namespace KestrelLang

/-! ## The order of places -/

instance : LinearOrder Position :=
  LinearOrder.lift' (fun p : Position => toLex (p.line, p.column)) fun p q h => by
    obtain ⟨hline, hcolumn⟩ := Prod.mk.inj (toLex.injective h)
    cases p
    cases q
    simp_all

theorem Position.lt_iff {p q : Position} : p < q ↔ p.line < q.line ∨ p.line = q.line ∧ p.column < q.column :=
  Prod.Lex.toLex_lt_toLex

/-! ## Nodes -/

/-- A node of a tree. Names are nodes too, wherever they stand. -/
inductive TreeNode where
  | name (n : Name)
  | expr (e : Expr)
  | stmt (s : Stmt)
  | block (b : Block)

namespace TreeNode

def span : TreeNode → Span
  | name n => n.span
  | expr e => e.span
  | stmt s => s.span
  | block b => b.span

/-- The node of an expression; an empty place has none. -/
def ofExpr : Expr → List TreeNode
  | .missing => []
  | e => [expr e]

def ofBlock : Block → List TreeNode
  | .missing => []
  | b => [block b]

/-- The node of a statement. An expression or a block that is a statement is one node, not two. -/
def ofStmt : Stmt → List TreeNode
  | .missing => []
  | .expr e => ofExpr e
  | .block b => ofBlock b
  | s => [stmt s]

def ofClause : Clause → List TreeNode
  | .mk test body => ofExpr test ++ ofBlock body

def ofLabel (label : Option Name) : List TreeNode := label.toList.map name

def exprParts : Expr → List TreeNode
  | .missing | .ident .. | .str .. | .int .. | .float .. | .undefined .. => []
  | .array elements _ => elements.flatMap ofExpr
  | .index object index _ => ofExpr object ++ ofExpr index
  | .unary _ operand _ => ofExpr operand
  | .binary _ left right _ | .assign _ left right _ => ofExpr left ++ ofExpr right
  | .call callee args _ => ofExpr callee ++ args.flatMap ofExpr
  | .closure params body _ => params.map name ++ ofBlock body

def stmtParts : Stmt → List TreeNode
  | .missing => []
  | .expr e => exprParts e
  | .block b => b.stmts.flatMap ofStmt
  | .bare label body _ => ofLabel label ++ ofBlock body
  | .whileLoop label test _ body _ => ofLabel label ++ ofExpr test ++ ofBlock body
  | .forLoop label init test step body _ =>
    ofLabel label ++ ofStmt init ++ ofExpr test ++ ofExpr step ++ ofBlock body
  | .foreachLoop label item iterable body _ => ofLabel label ++ [name item] ++ ofExpr iterable ++ ofBlock body
  | .ifChain test _ body clauses otherwise _ =>
    ofExpr test ++ ofBlock body ++ clauses.flatMap ofClause ++ ofBlock otherwise
  | .verb _ label _ => ofLabel label
  | .tailCall callee args _ _ => ofExpr callee ++ args.flatMap ofExpr
  | .ret argument _ => ofExpr argument
  | .sub own params body _ => [name own] ++ params.map name ++ ofBlock body

def parts : TreeNode → List TreeNode
  | name _ => []
  | expr e => exprParts e
  | stmt s => stmtParts s
  | block b => b.stmts.flatMap ofStmt

/-- The nodes right below a node in the order of the text. A modifier stands behind its statement. -/
def inText : TreeNode → List TreeNode
  | stmt (.ifChain test _ body clauses otherwise _) =>
    (if body.span.start < test.span.start then ofBlock body ++ ofExpr test else ofExpr test ++ ofBlock body)
      ++ clauses.flatMap ofClause ++ ofBlock otherwise
  | n => n.parts

theorem perm_inText (n : TreeNode) : n.parts.Perm n.inText := by
  unfold inText
  split
  · refine List.Perm.append_right _ (List.Perm.append_right _ ?_)
    split
    · exact List.perm_append_comm
    · exact .refl _
  · exact .refl _

/-- The other node begins where the first one has ended, or further on. -/
def Before (m n : TreeNode) : Prop := m.span.stop ≤ n.span.start

/-- Neither node begins before the other one has ended. -/
def Apart (m n : TreeNode) : Prop := m.span.stop ≤ n.span.start ∨ n.span.stop ≤ m.span.start

theorem Apart.symm {m n : TreeNode} (h : m.Apart n) : n.Apart m := Or.symm h

/-- All of `n` lies inside of `m`. -/
def Contains (m n : TreeNode) : Prop := m.span.start ≤ n.span.start ∧ n.span.stop ≤ m.span.stop

theorem Contains.refl (n : TreeNode) : n.Contains n := ⟨le_rfl, le_rfl⟩

theorem Apart.within {m n m' n' : TreeNode} (h : m.Apart n) (hm : m.Contains m') (hn : n.Contains n') : m'.Apart n' := by
  obtain h | h := h
  · exact .inl (hm.2.trans (h.trans hn.1))
  · exact .inr (hn.2.trans (h.trans hm.1))

end TreeNode

open TreeNode

/-- The nodes of a module that are in no other node. -/
def Module.nodes (m : Module) : List TreeNode := m.body.flatMap ofStmt

/-- The node at the end of a path: a number in the list, then a number below that node, and so on. -/
def nodeAt? (nodes : List TreeNode) : List Nat → Option TreeNode
  | [] => none
  | [i] => nodes[i]?
  | i :: j :: path => nodes[i]?.bind fun n => nodeAt? n.parts (j :: path)

/-! ## Tidy nodes -/

section Tidiness

variable {T : List Token} {lo mid mid' hi : Position} {ns ms : List TreeNode} {n m : TreeNode}

/-- A token of the list starts at `lo` and one stops at `hi`, which is further on. -/
structure Edges (T : List Token) (lo hi : Position) : Prop where
  start : ∃ t ∈ T, t.start = lo
  stop : ∃ t ∈ T, t.stop = hi
  lt : lo < hi

/-- The span of the node has edges, and the spans of the nodes right below it lie within it and follow one another in the
    order of the text; so it is for all nodes below. -/
inductive TreeNode.Tidy (T : List Token) : TreeNode → Prop where
  | intro {n : TreeNode} (edges : Edges T n.span.start n.span.stop) (within : ∀ m ∈ n.inText, n.Contains m)
      (inOrder : n.inText.Pairwise Before) (tidy : ∀ m ∈ n.inText, m.Tidy T) : n.Tidy T

/-- Tidy nodes that lie between two places and follow one another. -/
structure Follow (T : List Token) (lo : Position) (ns : List TreeNode) (hi : Position) : Prop where
  within : ∀ n ∈ ns, lo ≤ n.span.start ∧ n.span.stop ≤ hi
  inOrder : ns.Pairwise Before
  tidy : ∀ n ∈ ns, n.Tidy T

/-- Tidy nodes that lie between two places and apart from each other. -/
structure Lies (T : List Token) (lo : Position) (ns : List TreeNode) (hi : Position) : Prop where
  within : ∀ n ∈ ns, lo ≤ n.span.start ∧ n.span.stop ≤ hi
  apart : ns.Pairwise Apart
  tidy : ∀ n ∈ ns, n.Tidy T

theorem TreeNode.Tidy.edges (h : n.Tidy T) : Edges T n.span.start n.span.stop := by
  cases h
  assumption

theorem TreeNode.Tidy.follow (h : n.Tidy T) : Follow T n.span.start n.inText n.span.stop := by
  cases h with
  | intro edges within inOrder tidy => exact ⟨within, inOrder, tidy⟩

theorem Lies.perm (h : Lies T lo ns hi) (hperm : ms.Perm ns) : Lies T lo ms hi :=
  ⟨fun n hn => h.within n (hperm.mem_iff.mp hn), (hperm.pairwise_iff fun h => h.symm).mpr h.apart,
    fun n hn => h.tidy n (hperm.mem_iff.mp hn)⟩

theorem Follow.lies (h : Follow T lo ns hi) : Lies T lo ns hi := ⟨h.within, h.inOrder.imp .inl, h.tidy⟩

theorem TreeNode.Tidy.lies (h : n.Tidy T) : Lies T n.span.start n.parts n.span.stop := h.follow.lies.perm n.perm_inText

theorem Follow.nil : Follow T lo [] hi := ⟨nofun, .nil, nofun⟩

theorem Follow.single (hn : n.Tidy T) (hlo : lo ≤ n.span.start) (hhi : n.span.stop ≤ hi) : Follow T lo [n] hi :=
  ⟨by simpa using ⟨hlo, hhi⟩, List.pairwise_singleton _ _, by simpa using hn⟩

theorem Follow.widen (h : Follow T mid ns mid') (hlo : lo ≤ mid) (hhi : mid' ≤ hi) : Follow T lo ns hi :=
  ⟨fun n hn => ⟨hlo.trans (h.within n hn).1, (h.within n hn).2.trans hhi⟩, h.inOrder, h.tidy⟩

theorem Follow.append (h : Follow T lo ns mid) (h' : Follow T mid' ms hi) (hmid : mid ≤ mid') (hlo : lo ≤ mid')
    (hhi : mid ≤ hi) : Follow T lo (ns ++ ms) hi := by
  refine ⟨fun n hn => ?_, List.pairwise_append.mpr ⟨h.inOrder, h'.inOrder, fun n hn m hm => ?_⟩, fun n hn => ?_⟩
  · obtain hn | hn := List.mem_append.mp hn
    · exact ⟨(h.within n hn).1, (h.within n hn).2.trans hhi⟩
    · exact ⟨hlo.trans (h'.within n hn).1, (h'.within n hn).2⟩
  · exact (h.within n hn).2.trans (hmid.trans (h'.within m hm).1)
  · exact (List.mem_append.mp hn).elim (h.tidy n) (h'.tidy n)

/-- Between nodes that follow one another there is a place where the first ones end and the others begin. -/
theorem Follow.split (h : Follow T lo (ns ++ ms) hi) (hle : lo ≤ hi) :
    ∃ mid, lo ≤ mid ∧ mid ≤ hi ∧ Follow T lo ns mid ∧ Follow T mid ms hi := by
  induction ns generalizing lo with
  | nil => exact ⟨lo, le_rfl, hle, .nil, h⟩
  | cons n ns ih =>
    obtain ⟨hlo, hhi⟩ := h.within n List.mem_cons_self
    have htidy := h.tidy n List.mem_cons_self
    obtain ⟨hbefore, hrest⟩ := List.pairwise_cons.mp h.inOrder
    have hbehind : Follow T n.span.stop (ns ++ ms) hi :=
      ⟨fun m hm => ⟨hbefore m hm, (h.within m (List.mem_cons_of_mem n hm)).2⟩, hrest,
        fun m hm => h.tidy m (List.mem_cons_of_mem n hm)⟩
    obtain ⟨mid, hstop, hmid, hns, hms⟩ := ih hbehind hhi
    have hpast : lo ≤ n.span.stop := hlo.trans htidy.edges.lt.le
    have hfirst : Follow T lo [n] n.span.stop := .single htidy hlo le_rfl
    exact ⟨mid, hpast.trans hstop, hmid, hfirst.append hns le_rfl hpast hstop, hms⟩

theorem Follow.node (h : Follow T n.span.start ns n.span.stop) (hedges : Edges T n.span.start n.span.stop)
    (hparts : n.inText = ns) : n.Tidy T := by
  subst hparts
  exact .intro hedges h.within h.inOrder h.tidy

theorem Follow.start_lt (h : Follow T lo (ns ++ ms) hi) (hn : n ∈ ns) (hm : m ∈ ms) : n.span.start < m.span.start :=
  (h.tidy n (List.mem_append_left _ hn)).edges.lt.trans_le ((List.pairwise_append.mp h.inOrder).2.2 n hn m hm)

end Tidiness

/-! ## Tests and bodies -/

section Arms

variable {T : List Token} {lo hi : Position} {test : Expr} {body : Block}

theorem ofExpr_cases (e : Expr) : ofExpr e = [] ∨ ofExpr e = [expr e] := by
  cases e with
  | missing => exact .inl rfl
  | _ => exact .inr rfl

theorem ofBlock_cases (b : Block) : ofBlock b = [] ∨ ofBlock b = [block b] := by
  cases b with
  | missing => exact .inl rfl
  | mk => exact .inr rfl

/-- Unless both are there, the order of a test and a body is all one. -/
theorem test_and_body (test : Expr) (body : Block) :
    ofBlock body ++ ofExpr test = ofExpr test ++ ofBlock body ∨
      expr test ∈ ofExpr test ∧ block body ∈ ofBlock body := by
  obtain htest | htest := ofExpr_cases test
  · exact .inl (by rw [htest, List.append_nil, List.nil_append])
  · obtain hbody | hbody := ofBlock_cases body
    · exact .inl (by rw [hbody, List.append_nil, List.nil_append])
    · exact .inr ⟨by simp [htest], by simp [hbody]⟩

theorem Follow.test_first (h : Follow T lo (ofExpr test ++ ofBlock body) hi) :
    (if body.span.start < test.span.start then ofBlock body ++ ofExpr test else ofExpr test ++ ofBlock body) =
      ofExpr test ++ ofBlock body := by
  obtain hsame | ⟨htest, hbody⟩ := test_and_body test body
  · rw [hsame, ite_self]
  · have hlt : (expr test).span.start < (block body).span.start := h.start_lt htest hbody
    exact if_neg hlt.asymm

theorem Follow.body_first (h : Follow T lo (ofBlock body ++ ofExpr test) hi) :
    (if body.span.start < test.span.start then ofBlock body ++ ofExpr test else ofExpr test ++ ofBlock body) =
      ofBlock body ++ ofExpr test := by
  obtain hsame | ⟨htest, hbody⟩ := test_and_body test body
  · rw [hsame, ite_self]
  · have hlt : (block body).span.start < (expr test).span.start := h.start_lt hbody htest
    exact if_pos hlt

end Arms

/-! ## Nodes far apart -/

section Paths

variable {T : List Token} {lo hi : Position} {ns : List TreeNode} {n m : TreeNode} {p q : List Nat} {i : Nat}

theorem nodeAt?_cons (hp : p ≠ []) : nodeAt? ns (i :: p) = ns[i]?.bind fun n => nodeAt? n.parts p := by
  obtain _ | ⟨j, p⟩ := p
  · exact absurd rfl hp
  · rfl

theorem nodeAt?_ne_nil (h : nodeAt? ns p = some n) : p ≠ [] := by
  rintro rfl
  cases h

theorem nodeAt?_cases (h : nodeAt? ns (i :: p) = some n) :
    ∃ m, ns[i]? = some m ∧ (p = [] ∧ m = n ∨ nodeAt? m.parts p = some n) := by
  by_cases hp : p = []
  · subst hp
    exact ⟨n, h, .inl ⟨rfl, rfl⟩⟩
  · rw [nodeAt?_cons hp, Option.bind_eq_some_iff] at h
    obtain ⟨m, hm, hn⟩ := h
    exact ⟨m, hm, .inr hn⟩

theorem Lies.at_path (h : Lies T lo ns hi) (hn : nodeAt? ns p = some n) :
    n.Tidy T ∧ lo ≤ n.span.start ∧ n.span.stop ≤ hi := by
  induction p generalizing lo ns hi with
  | nil => cases hn
  | cons i p ih =>
    obtain ⟨m, hm, ⟨-, rfl⟩ | hn⟩ := nodeAt?_cases hn
    · have hmem := List.mem_of_getElem? hm
      exact ⟨h.tidy m hmem, h.within m hmem⟩
    · have hmem := List.mem_of_getElem? hm
      obtain ⟨htidy, hlo, hhi⟩ := ih (h.tidy m hmem).lies hn
      exact ⟨htidy, (h.within m hmem).1.trans hlo, hhi.trans (h.within m hmem).2⟩

theorem Lies.contains (h : Lies T lo ns hi) (hn : nodeAt? ns p = some n) (hm : nodeAt? ns (p ++ q) = some m) :
    n.Contains m := by
  induction p generalizing lo ns hi with
  | nil => cases hn
  | cons i p ih =>
    obtain ⟨first, hfirst, hn⟩ := nodeAt?_cases hn
    have htidy := h.tidy first (List.mem_of_getElem? hfirst)
    obtain ⟨first', hfirst', hm⟩ := nodeAt?_cases hm
    obtain rfl : first = first' := Option.some.inj (hfirst.symm.trans hfirst')
    obtain ⟨rfl, rfl⟩ | hn := hn
    · obtain ⟨-, rfl⟩ | hm := hm
      · exact .refl first
      · exact (htidy.lies.at_path hm).2
    · obtain ⟨hnil, -⟩ | hm := hm
      · exact absurd (List.append_eq_nil_iff.mp hnil).1 (nodeAt?_ne_nil hn)
      · exact ih htidy.lies hn hm

theorem Lies.apart_of_ne {j : Nat} (h : Lies T lo ns hi) (hn : ns[i]? = some n) (hm : ns[j]? = some m) (hij : i ≠ j) :
    n.Apart m := by
  obtain ⟨hi, rfl⟩ := List.getElem?_eq_some_iff.mp hn
  obtain ⟨hj, rfl⟩ := List.getElem?_eq_some_iff.mp hm
  have hpairs := List.pairwise_iff_getElem.mp h.apart
  obtain hlt | hlt := Nat.lt_or_gt_of_ne hij
  · exact hpairs i j hi hj hlt
  · exact (hpairs j i hj hi hlt).symm

/-- Two nodes of which neither is below the other lie apart: their paths part somewhere, and there the nodes do. -/
theorem Lies.apart_of_parting (h : Lies T lo ns hi) (hn : nodeAt? ns p = some n) (hm : nodeAt? ns q = some m)
    (hp : ¬ p <+: q) (hq : ¬ q <+: p) : n.Apart m := by
  induction p generalizing lo ns hi q with
  | nil => cases hn
  | cons i p ih =>
    obtain _ | ⟨j, q⟩ := q
    · cases hm
    obtain ⟨first, hfirst, hn⟩ := nodeAt?_cases hn
    obtain ⟨second, hsecond, hm⟩ := nodeAt?_cases hm
    have htidy := h.tidy first (List.mem_of_getElem? hfirst)
    -- On the same way down the paths part further below. Where they part, each node lies in one of two siblings.
    by_cases hij : i = j
    · subst hij
      obtain rfl : first = second := Option.some.inj (hfirst.symm.trans hsecond)
      rw [List.cons_prefix_cons, not_and] at hp hq
      obtain ⟨rfl, -⟩ | hn := hn
      · exact absurd List.nil_prefix (hp rfl)
      obtain ⟨rfl, -⟩ | hm := hm
      · exact absurd List.nil_prefix (hq rfl)
      exact ih htidy.lies hn hm (hp rfl) (hq rfl)
    · have hnear : first.Contains n := by
        obtain ⟨-, rfl⟩ | hn := hn
        · exact .refl first
        · exact (htidy.lies.at_path hn).2
      have hfar : second.Contains m := by
        obtain ⟨-, rfl⟩ | hm := hm
        · exact .refl second
        · exact ((h.tidy second (List.mem_of_getElem? hsecond)).lies.at_path hm).2
      exact (h.apart_of_ne hfirst hsecond hij).within hnear hfar

end Paths

end KestrelLang
