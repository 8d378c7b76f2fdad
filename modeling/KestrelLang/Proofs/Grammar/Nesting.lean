import KestrelLang.Proofs.Grammar.Nodes
import KestrelLang.Proofs.Grammar.TreeProperties

/-! # Spans nest

A parser takes the start of a node from the first token of it and the end from the last one. Tokens follow one another,
so the spans of a tree lie within each other or apart.

* `InOrder` — tokens that follow one another between two places.
* `Stream.Ordered` — a stream of such tokens.
* `Spread` — tidy nodes between the token at a place and the last token that was taken; one lemma for each way in which
  they grow.
* `Goes` — what a parser adds to them that may take no token.
* `Lays` — a parser gives only values with a property.
* `spans_nest` — the spans of the tree of a text. -/

namespace KestrelLang

/-! ## Tokens in order -/

/-- The tokens follow one another between `lo` and `hi`, and none is empty. -/
def InOrder (lo : Position) : List Token → Position → Prop
  | [], hi => lo ≤ hi
  | t :: ts, hi => lo ≤ t.start ∧ t.start < t.stop ∧ InOrder t.stop ts hi

namespace Lexer

theorem lt_advance (p : Position) (c : Char) : p < p.advance c := by
  unfold Position.advance
  split
  · exact Position.lt_iff.mpr (.inl (Int.lt_succ _))
  · exact Position.lt_iff.mpr (.inr ⟨rfl, Int.lt_succ _⟩)

theorem le_advanceAll (p : Position) (cs : List Char) : p ≤ p.advanceAll cs := by
  induction cs generalizing p with
  | nil => exact le_rfl
  | cons c cs ih => exact (lt_advance p c).le.trans (ih (p.advance c))

theorem lt_advanceAll {cs : List Char} (h : cs ≠ []) (p : Position) : p < p.advanceAll cs := by
  obtain _ | ⟨c, cs⟩ := cs
  · exact absurd rfl h
  · exact (lt_advance p c).trans_le (le_advanceAll (p.advance c) cs)

theorem le_skipTrivia (inComment : Bool) (pos : Position) (cs : List Char) :
    pos ≤ (skipTrivia inComment pos cs).pos := by
  fun_induction skipTrivia inComment pos cs with
  | case1 => exact le_rfl
  | case2 pos c cs ih => exact (lt_advance pos c).le.trans ih
  | case3 inComment pos c cs _ _ ih => exact (lt_advance pos c).le.trans ih
  | case4 inComment pos cs _ _ ih => exact (lt_advance pos '#').le.trans ih
  | case5 => exact le_rfl

theorem inOrder_scan {pos : Position} {cs : List Char} {l : TokenList} (h : scan pos cs = .ok l) :
    InOrder pos l.tokens l.eof := by
  induction pos, cs using scan_induction generalizing l with
  | atEnd pos cs stop htrivia =>
    cases (scan_of_end htrivia).symm.trans h
    have hstop := le_skipTrivia false pos cs
    rw [htrivia] at hstop
    exact hstop
  | atError pos cs start c rest cause htrivia hs => cases (scan_of_error htrivia hs).symm.trans h
  | atToken pos cs start c rest lexeme n htrivia hs ih =>
    have hstart := le_skipTrivia false pos cs
    rw [htrivia] at hstart
    obtain ⟨more, hmore, rfl⟩ := scan_rest htrivia hs h
    have hsome : (c :: rest).take n ≠ [] := by
      have hpos := scanToken_pos hs
      simp [Nat.ne_of_gt hpos]
    exact ⟨hstart, lt_advanceAll hsome start, ih hmore⟩

end Lexer

namespace Parser

open TreeNode

variable {α β : Type} {n n' : Nat} {T : List Token} {s s1 rest : Stream} {lo : Position} {ns ms : List TreeNode}

/-! ## Streams in order -/

/-- The tokens left are among `T` and follow one another, from the last one that was taken up to the end. -/
structure Stream.Ordered (T : List Token) (s : Stream) : Prop where
  among : ∀ t ∈ s.tokens, t ∈ T
  inOrder : InOrder s.last s.tokens s.eof

theorem Stream.Ordered.last_le (hs : s.Ordered T) : s.last ≤ s.place := by
  obtain ⟨_ | ⟨t, ts⟩, eof, last⟩ := s
  · exact hs.inOrder
  · exact hs.inOrder.1

/-! ## Nodes between tokens -/

/-- Tidy nodes follow one another between the token that starts at `lo` and the last one that was taken. -/
structure Spread (T : List Token) (lo : Position) (ns : List TreeNode) (s : Stream) : Prop where
  edges : Edges T lo s.last
  follow : Follow T lo ns s.last

/-- The stream went on to `rest`, perhaps without a token, and tidy nodes follow one another in between. -/
structure Goes (T : List Token) (s : Stream) (ns : List TreeNode) (rest : Stream) : Prop where
  last : s.last ≤ rest.last
  stop : rest.last = s.last ∨ ∃ t ∈ T, t.stop = rest.last
  follow : Follow T s.place ns rest.last
  place : s.place ≤ rest.place

theorem Goes.refl (s : Stream) : Goes T s [] s := ⟨le_rfl, .inl rfl, .nil, le_rfl⟩

theorem Spread.goes (h : Spread T s.place ns rest) (hs : s.Ordered T) (hrest : rest.Ordered T) : Goes T s ns rest where
  last := hs.last_le.trans h.edges.lt.le
  stop := .inr h.edges.stop
  follow := h.follow
  place := h.edges.lt.le.trans hrest.last_le

theorem Goes.trans (h : Goes T s ns s1) (h' : Goes T s1 ms rest) (hs1 : s1.Ordered T) : Goes T s (ns ++ ms) rest where
  last := h.last.trans h'.last
  stop := h'.stop.elim (fun heq => heq ▸ h.stop) .inr
  follow := h.follow.append h'.follow hs1.last_le h.place h'.last
  place := h.place.trans h'.place

theorem Spread.extend (h : Spread T lo ns s) (hs : s.Ordered T) (h' : Goes T s ms rest) : Spread T lo (ns ++ ms) rest where
  edges := ⟨h.edges.start, h'.stop.elim (fun heq => heq ▸ h.edges.stop) id, h.edges.lt.trans_le h'.last⟩
  follow := h.follow.append h'.follow hs.last_le (h.edges.lt.le.trans hs.last_le) h'.last

theorem Spread.join (h : Spread T lo ns s) (hs : s.Ordered T) (h' : Spread T s.place ms rest) :
    Spread T lo (ns ++ ms) rest where
  edges := ⟨h.edges.start, h'.edges.stop, h.edges.lt.trans (hs.last_le.trans_lt h'.edges.lt)⟩
  follow := h.follow.append h'.follow hs.last_le (h.edges.lt.le.trans hs.last_le) (hs.last_le.trans h'.edges.lt.le)

theorem Spread.past (h : Spread T lo ns s) (hs : s.Ordered T) (h' : Spread T s.place [] rest) : Spread T lo ns rest :=
  List.append_nil ns ▸ h.join hs h'

theorem Spread.node (h : Spread T lo ns s) (n : TreeNode) (hspan : n.span = s.since lo) (hparts : n.inText = ns) :
    Spread T lo [n] s := by
  obtain ⟨hstart, hstop⟩ : n.span.start = lo ∧ n.span.stop = s.last := by
    rw [hspan]
    exact ⟨rfl, rfl⟩
  have htidy : n.Tidy T := Follow.node (hstart ▸ hstop ▸ h.follow) (hstart ▸ hstop ▸ h.edges) hparts
  exact ⟨h.edges, .single htidy hstart.ge hstop.le⟩

/-- The nodes are one node with the given span, between the token that starts at `lo` and the last one that was taken.
    Parentheses may stand around it. -/
def Reads (T : List Token) (lo : Position) (ns : List TreeNode) (span : Span) (s : Stream) : Prop :=
  ∃ n, ns = [n] ∧ n.span = span ∧ Spread T lo [n] s

theorem Reads.spread {span : Span} (h : Reads T lo ns span s) : Spread T lo ns s := by
  obtain ⟨n, rfl, -, h⟩ := h
  exact h

theorem Spread.reads (h : Spread T lo ns s) (n : TreeNode) (hspan : n.span = s.since lo) (hparts : n.inText = ns) :
    Reads T lo [n] n.span s :=
  ⟨n, rfl, rfl, h.node n hspan hparts⟩

theorem Reads.past {span : Span} (h : Reads T lo ns span s) (hs : s.Ordered T) (h' : Spread T s.place [] rest) :
    Reads T lo ns span rest := by
  obtain ⟨n, rfl, hspan, h⟩ := h
  exact ⟨n, rfl, hspan, h.past hs h'⟩

theorem Spread.around {span : Span} (h : Spread T lo [] s) (hs : s.Ordered T) (h' : Reads T s.place ns span rest) :
    Reads T lo ns span rest := by
  obtain ⟨n, rfl, hspan, h'⟩ := h'
  exact ⟨n, rfl, hspan, h.join hs h'⟩

theorem Reads.wrap {span : Span} (h : Reads T lo ns span s) (m : TreeNode) (hspan : m.span = span) (hparts : m.inText = ns) :
    Spread T lo [m] s := by
  obtain ⟨n, rfl, rfl, h⟩ := h
  have htidy : n.Tidy T := h.follow.tidy n List.mem_cons_self
  have hwithin := h.follow.within n List.mem_cons_self
  have hinside : Follow T m.span.start [n] m.span.stop := by
    rw [hspan]
    exact .single htidy le_rfl le_rfl
  have hm : m.Tidy T := by
    refine hinside.node ?_ hparts
    rw [hspan]
    exact htidy.edges
  exact ⟨h.edges, .single hm (hspan ▸ hwithin.1) (hspan ▸ hwithin.2)⟩

/-- A loop or a block starts here: no label was taken, or it is behind the place. -/
def StartsAt (T : List Token) (label : Option Name) (start : Position) (s : Stream) : Prop :=
  label = none ∧ start = s.place ∨ Spread T start (ofLabel label) s

theorem StartsAt.join {label : Option Name} {start : Position} (hlabel : StartsAt T label start s) (hs : s.Ordered T)
    (h : Spread T s.place ns rest) : Spread T start (ofLabel label ++ ns) rest := by
  obtain ⟨rfl, rfl⟩ | hlabel := hlabel
  · exact h
  · exact hlabel.join hs h

/-! ## Parsers -/

/-- If the parser succeeds, tokens in order are left, and its value with the stream after it has the property. -/
def Lays (T : List Token) (Q : α → Stream → Prop) : Result α n → Prop
  | .error _ => True
  | .ok p => p.rest.Ordered T ∧ Q p.value p.rest

theorem Lays.bind {Q : α → Stream → Prop} {R : β → Stream → Prop} {x : Result α n} {f : Parsed α n → Result β n'}
    (hx : Lays T Q x) (hf : ∀ v rest h, rest.Ordered T → Q v rest → Lays T R (f ⟨v, rest, h⟩)) : Lays T R (x >>= f) := by
  cases x with
  | error e => trivial
  | ok p => exact hf p.value p.rest p.shorter hx.1 hx.2

theorem Lays.weaken {Q R : α → Stream → Prop} {x : Result α n} (hx : Lays T Q x) (h : ∀ v rest, Q v rest → R v rest) :
    Lays T R x := by
  cases x with
  | error e => trivial
  | ok p => exact ⟨hx.1, h _ _ hx.2⟩

theorem lays_pure {Q : α → Stream → Prop} {v : α} {h : s.size < n} (hs : s.Ordered T) (hv : Q v s) :
    Lays T Q (pure ⟨v, s, h⟩ : Result α n) := ⟨hs, hv⟩

structure Taken (T : List Token) (s : Stream) (span : Span) (rest : Stream) : Prop where
  span_eq : span = rest.since s.place
  spread : Spread T s.place [] rest

theorem Taken.start_eq {t : Token} (h : Taken T s t.span rest) : t.start = s.place :=
  congrArg Span.start h.span_eq

theorem Taken.at_start {t : Token} (h : Taken T s t.span rest) : Spread T t.start [] rest := h.start_eq ▸ h.spread

theorem Taken.node {span : Span} (h : Taken T s span rest) (n : TreeNode) (hspan : n.span = span) (hparts : n.inText = []) :
    Spread T s.place [n] rest :=
  h.spread.node n (hspan.trans h.span_eq) hparts

theorem Stream.Ordered.next? (hs : s.Ordered T) {t : Token} {h : rest.size < s.size}
    (hnext : next? s = some ⟨t, rest, h⟩) : rest.Ordered T ∧ Taken T s t.span rest := by
  obtain ⟨_ | ⟨t', ts⟩, eof, last⟩ := s
  · cases hnext
  · cases hnext
    obtain ⟨hlo, hlt, hrest⟩ := hs.inOrder
    have hmem : t ∈ T := hs.among t List.mem_cons_self
    refine ⟨⟨fun u hu => hs.among u (List.mem_cons_of_mem t hu), hrest⟩, rfl, ⟨⟨t, hmem, rfl⟩, ⟨t, hmem, rfl⟩, hlt⟩, .nil⟩

theorem Stream.Ordered.accept (hs : s.Ordered T) {wanted : Lexeme} {t : Token} {h : rest.size < s.size}
    (haccept : accept wanted s = some ⟨t, rest, h⟩) : rest.Ordered T ∧ Taken T s t.span rest :=
  hs.next? (next?_of_accept haccept)

theorem lays_expect (hs : s.Ordered T) (wanted : Lexeme) :
    Lays T (fun t rest => Taken T s t.span rest) (expect wanted s) := by
  unfold expect
  cases haccept : accept wanted s with
  | none => trivial
  | some p => exact hs.accept haccept

theorem lays_expectName (hs : s.Ordered T) (role : String) :
    Lays T (fun name rest => Taken T s name.span rest) (expectName role s) := by
  unfold expectName
  split
  · rename_i hnext
    exact hs.next? hnext
  · trivial

structure Shorter.Lays {k : Nat} (T : List Token) (r : Shorter k) : Prop where
  expr : ∀ {s} h, s.Ordered T → Parser.Lays T (fun e rest => Reads T s.place (ofExpr e) e.span rest) (r.expr s h)
  binary : ∀ {s} min h, s.Ordered T →
    Parser.Lays T (fun e rest => Reads T s.place (ofExpr e) e.span rest) (r.binary min s h)
  operators : ∀ {s start left} min h, s.Ordered T → Reads T start (ofExpr left) left.span s →
    Parser.Lays T (fun e rest => Reads T start (ofExpr e) e.span rest) (r.operators min start left s h)
  suffixes : ∀ {s start e} h, s.Ordered T → Reads T start (ofExpr e) e.span s →
    Parser.Lays T (fun e rest => Reads T start (ofExpr e) e.span rest) (r.suffixes start e s h)
  exprs : ∀ {s} closing h, s.Ordered T →
    Parser.Lays T (fun es rest => Goes T s (es.flatMap ofExpr) rest) (r.exprs closing s h)
  names : ∀ {s} h, s.Ordered T → Parser.Lays T (fun names rest => Goes T s (names.map .name) rest) (r.names s h)
  stmts : ∀ {s} opening h, s.Ordered T →
    Parser.Lays T (fun list rest => Goes T s (list.flatMap ofStmt) rest) (r.stmts opening s h)
  clauses : ∀ {s} h, s.Ordered T →
    Parser.Lays T (fun clauses rest => Goes T s (clauses.flatMap ofClause) rest) (r.clauses s h)

section Constructs

variable {k : Nat} {r : Shorter k} (hr : r.Lays T)
include hr

theorem lays_block (hs : s.Ordered T) (h : s.size ≤ k) :
    Lays T (fun b rest => Spread T s.place (ofBlock b) rest) (block r s h) := by
  unfold block
  refine (lays_expect hs _).bind fun opening s1 h1 hs1 hopening => ?_
  refine (hr.stmts _ _ hs1).bind fun body s2 h2 hs2 hbody => ?_
  refine (lays_expect hs2 _).bind fun _ s3 h3 hs3 hclosing => lays_pure hs3 ?_
  have hall := (hopening.spread.extend hs1 hbody).past hs2 hclosing.spread
  exact hall.node _ (congrArg s3.since hopening.start_eq) rfl

theorem lays_names (hs : s.Ordered T) (h : s.size ≤ k) :
    Lays T (fun names rest => Goes T s (names.map .name) rest) (names r s h) := by
  unfold names
  split
  · exact lays_pure hs (.refl s)
  refine (lays_expectName hs _).bind fun name s1 h1 hs1 hname => ?_
  have hfirst := hname.node (.name name) rfl rfl
  dsimp only
  split
  · rename_i haccept
    obtain ⟨hs2, hcomma⟩ := hs1.accept haccept
    refine (hr.names _ hs2).bind fun rest s3 h3 hs3 hrest => lays_pure hs3 ?_
    exact ((hfirst.past hs1 hcomma.spread).goes hs hs2).trans hrest hs2
  · exact lays_pure hs1 (hfirst.goes hs hs1)

theorem lays_params (hs : s.Ordered T) (h : s.size ≤ k) :
    Lays T (fun names rest => Goes T s (names.map .name) rest) (params r s h) := by
  unfold params
  split
  · exact lays_pure hs (.refl s)
  · rename_i haccept
    obtain ⟨hs1, hopening⟩ := hs.accept haccept
    refine (hr.names _ hs1).bind fun list s2 h2 hs2 hlist => ?_
    refine (lays_expect hs2 _).bind fun _ s3 h3 hs3 hclosing => lays_pure hs3 ?_
    exact ((hopening.spread.extend hs1 hlist).past hs2 hclosing.spread).goes hs hs3

/-! ## Expressions -/

omit hr in
theorem lays_intLiteral {t : Token} {digits : String} (hs1 : s1.Ordered T) (ht : Taken T s t.span s1) :
    Lays T (fun e rest => Reads T s.place (ofExpr e) e.span rest) (intLiteral t s1 digits) := by
  unfold intLiteral
  split
  · exact ⟨hs1, ht.spread.reads _ ht.span_eq rfl⟩
  · trivial

omit hr in
theorem lays_floatLiteral {t : Token} {digits : String} (hs1 : s1.Ordered T) (ht : Taken T s t.span s1) :
    Lays T (fun e rest => Reads T s.place (ofExpr e) e.span rest) (floatLiteral t s1 digits) := by
  unfold floatLiteral
  split
  · exact ⟨hs1, ht.spread.reads _ ht.span_eq rfl⟩
  · trivial

theorem lays_primary (hs : s.Ordered T) (h : s.size ≤ k) :
    Lays T (fun e rest => Reads T s.place (ofExpr e) e.span rest) (primary r s h) := by
  unfold primary
  split
  · trivial
  rename_i t s1 h1 hnext
  obtain ⟨hs1, ht⟩ := hs.next? hnext
  split
  · exact (lays_intLiteral hs1 ht).bind fun e s2 h2 hs2 he => lays_pure hs2 he
  · exact (lays_floatLiteral hs1 ht).bind fun e s2 h2 hs2 he => lays_pure hs2 he
  · exact lays_pure hs1 (ht.spread.reads _ ht.span_eq rfl)
  · exact lays_pure hs1 (ht.spread.reads _ ht.span_eq rfl)
  · exact lays_pure hs1 (ht.spread.reads _ ht.span_eq rfl)
  · refine (lays_params hr hs1 _).bind fun list s2 h2 hs2 hlist => ?_
    refine (lays_block hr hs2 _).bind fun body s3 h3 hs3 hbody => lays_pure hs3 ?_
    have hall := (ht.spread.extend hs1 hlist).join hs2 hbody
    exact hall.reads _ (congrArg s3.since ht.start_eq) rfl
  · refine (hr.expr _ hs1).bind fun e s2 h2 hs2 he => ?_
    refine (lays_expect hs2 _).bind fun _ s3 h3 hs3 hclosing => lays_pure hs3 ?_
    exact (ht.spread.around hs1 he).past hs2 hclosing.spread
  · refine (hr.exprs _ _ hs1).bind fun elements s2 h2 hs2 helements => ?_
    refine (lays_expect hs2 _).bind fun _ s3 h3 hs3 hclosing => lays_pure hs3 ?_
    have hall := (ht.spread.extend hs1 helements).past hs2 hclosing.spread
    exact hall.reads _ (congrArg s3.since ht.start_eq) rfl
  · trivial

theorem lays_arguments (hs : s.Ordered T) (h : s.size ≤ k) :
    Lays T (fun es rest => Spread T s.place (es.flatMap ofExpr) rest) (arguments r s h) := by
  unfold arguments
  refine (lays_expect hs _).bind fun _ s1 h1 hs1 hopening => ?_
  refine (hr.exprs _ _ hs1).bind fun list s2 h2 hs2 hlist => ?_
  refine (lays_expect hs2 _).bind fun _ s3 h3 hs3 hclosing => lays_pure hs3 ?_
  exact (hopening.spread.extend hs1 hlist).past hs2 hclosing.spread

theorem lays_suffixes {e : Expr} {start : Position} (hs : s.Ordered T) (he : Reads T start (ofExpr e) e.span s)
    (h : s.size ≤ k) : Lays T (fun e rest => Reads T start (ofExpr e) e.span rest) (suffixes r start e s h) := by
  unfold suffixes
  split
  · refine (lays_arguments hr hs _).bind fun args s1 h1 hs1 hargs => ?_
    have hcall := (he.spread.join hs hargs).reads (.expr (.call e args (s1.since start))) rfl rfl
    exact (hr.suffixes _ hs1 hcall).bind fun whole s2 h2 hs2 hwhole => lays_pure hs2 hwhole
  · split
    · exact lays_pure hs he
    · rename_i haccept
      obtain ⟨hs1, hopening⟩ := hs.accept haccept
      refine (hr.expr _ hs1).bind fun index s2 h2 hs2 hindex => ?_
      refine (lays_expect hs2 _).bind fun _ s3 h3 hs3 hclosing => ?_
      have hinside := ((he.spread.past hs hopening.spread).join hs1 hindex.spread).past hs2 hclosing.spread
      have hwhole := hinside.reads (.expr (.index e index (s3.since start))) rfl rfl
      exact (hr.suffixes _ hs3 hwhole).bind fun whole s4 h4 hs4 hwhole => lays_pure hs4 hwhole

theorem lays_suffixed (hs : s.Ordered T) (h : s.size ≤ k) :
    Lays T (fun e rest => Reads T s.place (ofExpr e) e.span rest) (suffixed r s h) := by
  unfold suffixed
  refine (lays_primary hr hs _).bind fun e s1 h1 hs1 he => ?_
  exact (lays_suffixes hr hs1 he _).bind fun whole s2 h2 hs2 hwhole => lays_pure hs2 hwhole

theorem lays_unary (hs : s.Ordered T) (h : s.size ≤ k) :
    Lays T (fun e rest => Reads T s.place (ofExpr e) e.span rest) (unary r s h) := by
  unfold unary
  split
  · rename_i hnext
    obtain ⟨hs1, ht⟩ := hs.next? hnext
    refine (hr.binary _ _ hs1).bind fun operand s2 h2 hs2 hoperand => lays_pure hs2 ?_
    exact (ht.spread.join hs1 hoperand.spread).reads _ (congrArg s2.since ht.start_eq) rfl
  · exact lays_suffixed hr hs h

theorem lays_operators {left : Expr} {start : Position} (min : Nat) (hs : s.Ordered T)
    (hleft : Reads T start (ofExpr left) left.span s) (h : s.size ≤ k) :
    Lays T (fun e rest => Reads T start (ofExpr e) e.span rest) (operators r min start left s h) := by
  unfold operators
  split
  · rename_i level op t s1 h1 hlevel hnext
    split
    · exact lays_pure hs hleft
    · obtain ⟨hs1, hsign⟩ := hs.next? hnext
      refine (hr.binary _ _ hs1).bind fun right s2 h2 hs2 hright => ?_
      have hjoined := ((hleft.spread.past hs hsign.spread).join hs1 hright.spread).reads
        (.expr (.binary op left right (s2.since start))) rfl rfl
      exact (hr.operators _ _ hs2 hjoined).bind fun whole s3 h3 hs3 hwhole => lays_pure hs3 hwhole
  · exact lays_pure hs hleft

theorem lays_binary (min : Nat) (hs : s.Ordered T) (h : s.size ≤ k) :
    Lays T (fun e rest => Reads T s.place (ofExpr e) e.span rest) (binary r min s h) := by
  unfold binary
  refine (lays_unary hr hs _).bind fun left s1 h1 hs1 hleft => ?_
  exact (lays_operators hr _ hs1 hleft _).bind fun whole s2 h2 hs2 hwhole => lays_pure hs2 hwhole

theorem lays_declaration {start : Position} (hs : s.Ordered T) (hstart : Spread T start [] s) (h : s.size ≤ k) :
    Lays T (fun e rest => Reads T start (ofExpr e) e.span rest) (declaration r start s h) := by
  unfold declaration
  refine (lays_expectName hs _).bind fun name s1 h1 hs1 hname => ?_
  have htarget := hstart.join hs (hname.node (.expr (.ident name.text name.span)) rfl rfl)
  dsimp only
  split
  · rename_i haccept
    obtain ⟨hs2, hsign⟩ := hs1.accept haccept
    refine (hr.expr _ hs2).bind fun value s3 h3 hs3 hvalue => lays_pure hs3 ?_
    exact ((htarget.past hs1 hsign.spread).join hs2 hvalue.spread).reads _ rfl rfl
  · exact lays_pure hs1 (htarget.reads _ rfl rfl)

theorem lays_expression (hs : s.Ordered T) (h : s.size ≤ k) :
    Lays T (fun e rest => Reads T s.place (ofExpr e) e.span rest) (expression r s h) := by
  unfold expression
  split
  · rename_i haccept
    obtain ⟨hs1, hword⟩ := hs.accept haccept
    exact (lays_declaration hr hs1 hword.spread _).bind fun e s2 h2 hs2 he => lays_pure hs2 he
  · refine (lays_binary hr 0 hs h).bind fun left s1 h1 hs1 hleft => ?_
    dsimp only
    split
    · rename_i hnext
      split
      · obtain ⟨hs2, hsign⟩ := hs1.next? hnext
        refine (hr.expr _ hs2).bind fun right s3 h3 hs3 hright => lays_pure hs3 ?_
        exact ((hleft.spread.past hs1 hsign.spread).join hs2 hright.spread).reads _ rfl rfl
      · trivial
    · exact lays_pure hs1 hleft

theorem lays_exprs (closing : Punct) (hs : s.Ordered T) (h : s.size ≤ k) :
    Lays T (fun es rest => Goes T s (es.flatMap ofExpr) rest) (exprs r closing s h) := by
  unfold exprs
  split
  · exact lays_pure hs (.refl s)
  refine (lays_expression hr hs h).bind fun e s1 h1 hs1 he => ?_
  dsimp only
  split
  · rename_i haccept
    obtain ⟨hs2, hcomma⟩ := hs1.accept haccept
    refine (hr.exprs _ _ hs2).bind fun rest s3 h3 hs3 hrest => lays_pure hs3 ?_
    exact ((he.spread.past hs1 hcomma.spread).goes hs hs2).trans hrest hs2
  · refine lays_pure hs1 ?_
    rw [List.flatMap_singleton]
    exact he.spread.goes hs hs1

/-! ## Statements -/

theorem lays_parenthesised (hs : s.Ordered T) (h : s.size ≤ k) :
    Lays T (fun e rest => Spread T s.place (ofExpr e) rest) (parenthesised r s h) := by
  unfold parenthesised
  refine (lays_expect hs _).bind fun _ s1 h1 hs1 hopening => ?_
  refine (hr.expr _ hs1).bind fun e s2 h2 hs2 he => ?_
  refine (lays_expect hs2 _).bind fun _ s3 h3 hs3 hclosing => lays_pure hs3 ?_
  exact (hopening.spread.join hs1 he.spread).past hs2 hclosing.spread

theorem lays_bareBlock {label : Option Name} {start : Position} (hs : s.Ordered T) (hlabel : StartsAt T label start s)
    (h : s.size ≤ k) :
    Lays T (fun stmt rest => Reads T start (ofStmt stmt) stmt.span rest) (bareBlock r label start s h) := by
  unfold bareBlock
  refine (lays_block hr hs _).bind fun body s1 h1 hs1 hbody => lays_pure hs1 ?_
  exact (hlabel.join hs hbody).reads (.stmt (.bare label body (s1.since start))) rfl rfl

theorem lays_whileTail {label : Option Name} {start : Position} (negate : Bool) (hs : s.Ordered T)
    (hlabel : Spread T start (ofLabel label) s) (h : s.size ≤ k) :
    Lays T (fun stmt rest => Reads T start (ofStmt stmt) stmt.span rest) (whileTail r label negate start s h) := by
  unfold whileTail
  refine (lays_parenthesised hr hs _).bind fun test s1 h1 hs1 htest => ?_
  refine (lays_block hr hs1 _).bind fun body s2 h2 hs2 hbody => lays_pure hs2 ?_
  have hall := (hlabel.join hs htest).join hs1 hbody
  exact hall.reads (.stmt (.whileLoop label test negate body (s2.since start))) rfl rfl

theorem lays_foreachTail {label : Option Name} {start : Position} (hs : s.Ordered T)
    (hlabel : Spread T start (ofLabel label) s) (h : s.size ≤ k) :
    Lays T (fun stmt rest => Reads T start (ofStmt stmt) stmt.span rest) (foreachTail r label start s h) := by
  unfold foreachTail
  refine (lays_expect hs _).bind fun _ s1 h1 hs1 hword => ?_
  refine (lays_expectName hs1 _).bind fun item s2 h2 hs2 hitem => ?_
  refine (lays_parenthesised hr hs2 _).bind fun iterable s3 h3 hs3 hiterable => ?_
  refine (lays_block hr hs3 _).bind fun body s4 h4 hs4 hbody => lays_pure hs4 ?_
  have hnames := (hlabel.past hs hword.spread).join hs1 (hitem.node (.name item) rfl rfl)
  have hall := (hnames.join hs2 hiterable).join hs3 hbody
  exact hall.reads (.stmt (.foreachLoop label item iterable body (s4.since start))) rfl rfl

theorem lays_headerPart (closing : Punct) (hs : s.Ordered T) (h : s.size ≤ k) :
    Lays T (fun e rest => Spread T s.place (ofExpr e) rest) (headerPart r closing s h) := by
  unfold headerPart
  split
  · exact (lays_expect hs _).bind fun _ s1 h1 hs1 hclosing => lays_pure hs1 hclosing.spread
  · refine (lays_expression hr hs h).bind fun e s1 h1 hs1 he => ?_
    exact (lays_expect hs1 _).bind fun _ s2 h2 hs2 hclosing => lays_pure hs2 (he.spread.past hs1 hclosing.spread)

omit hr in
theorem ofStmt_initOf (e : Expr) : ofStmt (initOf e) = ofExpr e := by cases e <;> rfl

theorem lays_forTail {label : Option Name} {start : Position} (hs : s.Ordered T)
    (hlabel : Spread T start (ofLabel label) s) (h : s.size ≤ k) :
    Lays T (fun stmt rest => Reads T start (ofStmt stmt) stmt.span rest) (forTail r label start s h) := by
  unfold forTail
  split
  · exact lays_foreachTail hr hs hlabel h
  refine (lays_expect hs _).bind fun _ s1 h1 hs1 hopening => ?_
  refine (lays_headerPart hr _ hs1 _).bind fun init s2 h2 hs2 hinit => ?_
  refine (lays_headerPart hr _ hs2 _).bind fun test s3 h3 hs3 htest => ?_
  refine (lays_headerPart hr _ hs3 _).bind fun step s4 h4 hs4 hstep => ?_
  refine (lays_block hr hs4 _).bind fun body s5 h5 hs5 hbody => lays_pure hs5 ?_
  have hheader := (((hlabel.past hs hopening.spread).join hs1 hinit).join hs2 htest).join hs3 hstep
  rw [← ofStmt_initOf] at hheader
  exact (hheader.join hs4 hbody).reads (.stmt (.forLoop label (initOf init) test step body (s5.since start))) rfl
    rfl

theorem lays_loop? {label : Option Name} {start : Position} {h : s.size ≤ k} {result : Result Stmt s.size}
    (hs : s.Ordered T) (hlabel : StartsAt T label start s) (hloop : loop? r label start s h = some result) :
    Lays T (fun stmt rest => Reads T start (ofStmt stmt) stmt.span rest) result := by
  have hword : ∀ {span : Span} {s1 : Stream}, Taken T s span s1 → Spread T start (ofLabel label) s1 := by
    intro span s1 htaken
    have hjoined := hlabel.join hs htaken.spread
    rwa [List.append_nil] at hjoined
  unfold loop? at hloop
  split at hloop
  · cases hloop
    exact lays_bareBlock hr hs hlabel h
  · rename_i hnext
    obtain ⟨hs1, ht⟩ := hs.next? hnext
    cases hloop
    exact (lays_whileTail hr false hs1 (hword ht) _).bind fun e s2 h2 hs2 he => lays_pure hs2 he
  · rename_i hnext
    obtain ⟨hs1, ht⟩ := hs.next? hnext
    cases hloop
    exact (lays_whileTail hr true hs1 (hword ht) _).bind fun e s2 h2 hs2 he => lays_pure hs2 he
  · rename_i hnext
    obtain ⟨hs1, ht⟩ := hs.next? hnext
    cases hloop
    exact (lays_forTail hr hs1 (hword ht) _).bind fun e s2 h2 hs2 he => lays_pure hs2 he
  · rename_i hnext
    obtain ⟨hs1, ht⟩ := hs.next? hnext
    cases hloop
    exact (lays_foreachTail hr hs1 (hword ht) _).bind fun e s2 h2 hs2 he => lays_pure hs2 he
  · cases hloop

theorem lays_labeled (hs : s.Ordered T) (h : s.size ≤ k) :
    Lays T (fun stmt rest => Reads T s.place (ofStmt stmt) stmt.span rest) (labeled r s h) := by
  unfold labeled
  refine (lays_expectName hs _).bind fun label s1 h1 hs1 hlabel => ?_
  refine (lays_expect hs1 _).bind fun _ s2 h2 hs2 hcolon => ?_
  dsimp only
  split
  · rename_i hloop
    have hstart := (hlabel.node (.name label) rfl rfl).past hs1 hcolon.spread
    exact (lays_loop? hr hs2 (.inr hstart) hloop).bind fun stmt s3 h3 hs3 hstmt => lays_pure hs3 hstmt
  · trivial

theorem lays_clauses (hs : s.Ordered T) (h : s.size ≤ k) :
    Lays T (fun clauses rest => Goes T s (clauses.flatMap ofClause) rest) (clauses r s h) := by
  unfold clauses
  split
  · exact lays_pure hs (.refl s)
  · rename_i haccept
    obtain ⟨hs1, hword⟩ := hs.accept haccept
    refine (lays_parenthesised hr hs1 _).bind fun test s2 h2 hs2 htest => ?_
    refine (lays_block hr hs2 _).bind fun body s3 h3 hs3 hbody => ?_
    refine (hr.clauses _ hs3).bind fun rest s4 h4 hs4 hrest => lays_pure hs4 ?_
    exact (((hword.spread.join hs1 htest).join hs2 hbody).goes hs hs3).trans hrest hs3

theorem lays_otherwise (hs : s.Ordered T) (h : s.size ≤ k) :
    Lays T (fun body rest => Goes T s (ofBlock body) rest) (otherwise r s h) := by
  unfold otherwise
  split
  · exact lays_pure hs (.refl s)
  · rename_i haccept
    obtain ⟨hs1, hword⟩ := hs.accept haccept
    refine (lays_block hr hs1 _).bind fun body s2 h2 hs2 hbody => lays_pure hs2 ?_
    exact (hword.spread.join hs1 hbody).goes hs hs2

theorem lays_ifTail {start : Position} (negate : Bool) (hs : s.Ordered T) (hstart : Spread T start [] s)
    (h : s.size ≤ k) :
    Lays T (fun stmt rest => Reads T start (ofStmt stmt) stmt.span rest) (ifTail r negate start s h) := by
  unfold ifTail
  refine (lays_parenthesised hr hs _).bind fun test s1 h1 hs1 htest => ?_
  refine (lays_block hr hs1 _).bind fun body s2 h2 hs2 hbody => ?_
  refine (lays_clauses hr hs2 _).bind fun more s3 h3 hs3 hmore => ?_
  refine (lays_otherwise hr hs3 _).bind fun last s4 h4 hs4 hlast => lays_pure hs4 ?_
  have hpair : Spread T start (ofExpr test ++ ofBlock body) s2 := (hstart.join hs htest).join hs1 hbody
  have hall := (hpair.extend hs2 hmore).extend hs3 hlast
  have hparts := congrArg (· ++ more.flatMap ofClause ++ ofBlock last) hpair.follow.test_first
  exact hall.reads (.stmt (.ifChain test negate body more last (s4.since start))) rfl hparts

theorem lays_subTail {start : Position} (hs : s.Ordered T) (hstart : Spread T start [] s) (h : s.size ≤ k) :
    Lays T (fun stmt rest => Reads T start (ofStmt stmt) stmt.span rest) (subTail r start s h) := by
  unfold subTail
  refine (lays_expectName hs _).bind fun name s1 h1 hs1 hname => ?_
  refine (lays_params hr hs1 _).bind fun list s2 h2 hs2 hlist => ?_
  refine (lays_block hr hs2 _).bind fun body s3 h3 hs3 hbody => lays_pure hs3 ?_
  have hall := ((hstart.join hs (hname.node (.name name) rfl rfl)).extend hs1 hlist).join hs2 hbody
  exact hall.reads (.stmt (.sub name list body (s3.since start))) rfl rfl

omit hr in
theorem lays_verbTail {start : Position} (verb : Verb) (hs : s.Ordered T) (hstart : Spread T start [] s) :
    Lays T (fun stmt rest => Reads T start (ofStmt stmt) stmt.span rest) (verbTail verb start s) := by
  unfold verbTail
  split
  · rename_i name t s1 h1 _ hnext
    obtain ⟨hs1, ht⟩ := hs.next? hnext
    have hlabel := hstart.join hs (ht.node (.name ⟨name, t.span⟩) rfl rfl)
    exact ⟨hs1, hlabel.reads (.stmt (.verb verb (some ⟨name, t.span⟩) (s1.since start))) rfl rfl⟩
  · exact ⟨hs, hstart.reads (.stmt (.verb verb none (s.since start))) rfl rfl⟩

theorem lays_gotoTail {start : Position} (hs : s.Ordered T) (hstart : Spread T start [] s) (h : s.size ≤ k) :
    Lays T (fun stmt rest => Reads T start (ofStmt stmt) stmt.span rest) (gotoTail r start s h) := by
  unfold gotoTail
  split
  · rename_i haccept
    obtain ⟨hs1, hsign⟩ := hs.accept haccept
    refine (lays_expectName hs1 _).bind fun name s2 h2 hs2 hname => ?_
    have hcallee := (hstart.past hs hsign.spread).join hs1 (hname.node (.expr (.ident name.text name.span)) rfl rfl)
    dsimp only
    split
    · refine (lays_arguments hr hs2 _).bind fun args s3 h3 hs3 hargs => lays_pure hs3 ?_
      exact (hcallee.join hs2 hargs).reads
        (.stmt (.tailCall (.ident name.text name.span) args false (s3.since start))) rfl rfl
    · exact lays_pure hs2
        (hcallee.reads (.stmt (.tailCall (.ident name.text name.span) [] true (s2.since start))) rfl rfl)
  · refine (lays_expectName hs _).bind fun label s1 h1 hs1 hlabel => lays_pure hs1 ?_
    have hname := hstart.join hs (hlabel.node (.name label) rfl rfl)
    exact hname.reads (.stmt (.verb .goto (some label) (s1.since start))) rfl rfl

theorem lays_returnTail {start : Position} (hs : s.Ordered T) (hstart : Spread T start [] s) (h : s.size ≤ k) :
    Lays T (fun stmt rest => Reads T start (ofStmt stmt) stmt.span rest) (returnTail r start s h) := by
  unfold returnTail
  split
  · exact lays_pure hs (hstart.reads (.stmt (.ret .missing (s.since start))) rfl rfl)
  · refine (lays_expression hr hs h).bind fun e s1 h1 hs1 he => lays_pure hs1 ?_
    exact (hstart.join hs he.spread).reads (.stmt (.ret e (s1.since start))) rfl rfl

theorem lays_simple (hs : s.Ordered T) (h : s.size ≤ k) :
    Lays T (fun stmt rest => Reads T s.place (ofStmt stmt) stmt.span rest) (simple r s h) := by
  unfold simple
  split
  · rename_i hnext
    obtain ⟨hs1, ht⟩ := hs.next? hnext
    rw [← ht.start_eq]
    exact (lays_verbTail .last hs1 ht.at_start).bind fun stmt s2 h2 hs2 hstmt => lays_pure hs2 hstmt
  · rename_i hnext
    obtain ⟨hs1, ht⟩ := hs.next? hnext
    rw [← ht.start_eq]
    exact (lays_verbTail .next hs1 ht.at_start).bind fun stmt s2 h2 hs2 hstmt => lays_pure hs2 hstmt
  · rename_i hnext
    obtain ⟨hs1, ht⟩ := hs.next? hnext
    rw [← ht.start_eq]
    exact (lays_verbTail .redo hs1 ht.at_start).bind fun stmt s2 h2 hs2 hstmt => lays_pure hs2 hstmt
  · rename_i hnext
    obtain ⟨hs1, ht⟩ := hs.next? hnext
    rw [← ht.start_eq]
    exact (lays_gotoTail hr hs1 ht.at_start _).bind fun stmt s2 h2 hs2 hstmt => lays_pure hs2 hstmt
  · rename_i hnext
    obtain ⟨hs1, ht⟩ := hs.next? hnext
    rw [← ht.start_eq]
    exact (lays_returnTail hr hs1 ht.at_start _).bind fun stmt s2 h2 hs2 hstmt => lays_pure hs2 hstmt
  · exact (lays_expression hr hs h).bind fun e s1 h1 hs1 he => lays_pure hs1 he

omit hr in
/-- The chain that a modifier makes. Its test stands after its body. -/
theorem reads_modified {stmt : Stmt} {start : Position} {test : Expr} {span : Span} (negate : Bool)
    (hs : s.Ordered T) (hstmt : Reads T start (ofStmt stmt) stmt.span s) (hs1 : s1.Ordered T) (hword : Taken T s span s1)
    (htest : Spread T s1.place (ofExpr test) rest) :
    Reads T start (ofStmt (.ifChain test negate (.mk [stmt] stmt.span) [] .missing (rest.since start)))
      (rest.since start) rest := by
  have hbody : Spread T start [.block (.mk [stmt] stmt.span)] s :=
    hstmt.wrap (.block (.mk [stmt] stmt.span)) rfl (List.flatMap_singleton _ _)
  have hall : Spread T start (ofBlock (.mk [stmt] stmt.span) ++ ofExpr test) rest :=
    (hbody.past hs hword.spread).join hs1 htest
  refine hall.reads (.stmt (.ifChain test negate (.mk [stmt] stmt.span) [] .missing (rest.since start))) rfl ?_
  -- There are no further arms.
  exact (List.append_nil _).trans ((List.append_nil _).trans hall.follow.body_first)

theorem lays_modifier {stmt : Stmt} {start : Position} (hs : s.Ordered T)
    (hstmt : Reads T start (ofStmt stmt) stmt.span s) (h : s.size ≤ k) :
    Lays T (fun stmt rest => Reads T start (ofStmt stmt) stmt.span rest) (modifier r stmt start s h) := by
  unfold modifier
  split
  · rename_i hnext
    obtain ⟨hs1, ht⟩ := hs.next? hnext
    exact (hr.expr _ hs1).bind fun test s2 h2 hs2 htest =>
      lays_pure hs2 (reads_modified false hs hstmt hs1 ht htest.spread)
  · rename_i hnext
    obtain ⟨hs1, ht⟩ := hs.next? hnext
    exact (hr.expr _ hs1).bind fun test s2 h2 hs2 htest =>
      lays_pure hs2 (reads_modified true hs hstmt hs1 ht htest.spread)
  · exact lays_pure hs hstmt

omit hr in
theorem lays_terminator (hs : s.Ordered T) : Lays T (fun _ rest => Goes T s [] rest) (terminator s) := by
  unfold terminator
  split
  · rename_i haccept
    obtain ⟨hs1, hmark⟩ := hs.accept haccept
    exact ⟨hs1, hmark.spread.goes hs hs1⟩
  · split
    · exact ⟨hs, .refl s⟩
    · trivial

theorem lays_terminated (hs : s.Ordered T) (h : s.size ≤ k) :
    Lays T (fun stmt rest => Spread T s.place (ofStmt stmt) rest) (terminated r s h) := by
  unfold terminated
  refine (lays_simple hr hs _).bind fun stmt s1 h1 hs1 hstmt => ?_
  refine (lays_modifier hr hs1 hstmt _).bind fun whole s2 h2 hs2 hwhole => ?_
  refine (lays_terminator hs2).bind fun _ s3 h3 hs3 hend => lays_pure hs3 ?_
  have hall := hwhole.spread.extend hs2 hend
  rwa [List.append_nil] at hall

theorem lays_plain (hs : s.Ordered T) (h : s.size ≤ k) :
    Lays T (fun stmt rest => Spread T s.place (ofStmt stmt) rest) (plain r s h) := by
  unfold plain
  split
  · rename_i hnext
    obtain ⟨hs1, ht⟩ := hs.next? hnext
    rw [← ht.start_eq]
    exact (lays_subTail hr hs1 ht.at_start _).bind fun stmt s2 h2 hs2 hstmt => lays_pure hs2 hstmt.spread
  · rename_i hnext
    obtain ⟨hs1, ht⟩ := hs.next? hnext
    rw [← ht.start_eq]
    exact (lays_ifTail hr false hs1 ht.at_start _).bind fun stmt s2 h2 hs2 hstmt => lays_pure hs2 hstmt.spread
  · rename_i hnext
    obtain ⟨hs1, ht⟩ := hs.next? hnext
    rw [← ht.start_eq]
    exact (lays_ifTail hr true hs1 ht.at_start _).bind fun stmt s2 h2 hs2 hstmt => lays_pure hs2 hstmt.spread
  · exact lays_terminated hr hs h

theorem lays_statement (hs : s.Ordered T) (h : s.size ≤ k) :
    Lays T (fun stmt rest => Spread T s.place (ofStmt stmt) rest) (statement r s h) := by
  unfold statement
  split
  · exact (lays_labeled hr hs h).weaken fun stmt rest hstmt => hstmt.spread
  · split
    · rename_i hloop
      exact (lays_loop? hr hs (.inl ⟨rfl, rfl⟩) hloop).weaken fun stmt rest hstmt => hstmt.spread
    · exact lays_plain hr hs h

theorem lays_stmts (opening : Option Position) (hs : s.Ordered T) (h : s.size ≤ k) :
    Lays T (fun list rest => Goes T s (list.flatMap ofStmt) rest) (stmts r opening s h) := by
  unfold stmts
  split
  · exact lays_pure hs (.refl s)
  · trivial
  · exact lays_pure hs (.refl s)
  · split
    · rename_i haccept
      obtain ⟨hs1, hmark⟩ := hs.accept haccept
      refine (hr.stmts _ _ hs1).bind fun rest s2 h2 hs2 hrest => lays_pure hs2 ?_
      exact (hmark.spread.goes hs hs1).trans hrest hs1
    · refine (lays_statement hr hs h).bind fun stmt s1 h1 hs1 hstmt => ?_
      refine (hr.stmts _ _ hs1).bind fun rest s2 h2 hs2 hrest => lays_pure hs2 ?_
      exact (hstmt.goes hs hs1).trans hrest hs1

end Constructs

/-! ## The whole text -/

theorem lays_parsers (T : List Token) (k : Nat) : (parsers k).Lays T := by
  induction k with
  -- The parsers of depth zero are for no stream at all.
  | zero => constructor <;> intros <;> exact absurd ‹_ < 0› (Nat.not_lt_zero _)
  | succ k ih =>
    exact
      { expr := fun h hs => lays_expression ih hs (Nat.le_of_lt_succ h)
        binary := fun min h hs => lays_binary ih min hs (Nat.le_of_lt_succ h)
        operators := fun min h hs hleft => lays_operators ih min hs hleft (Nat.le_of_lt_succ h)
        suffixes := fun h hs he => lays_suffixes ih hs he (Nat.le_of_lt_succ h)
        exprs := fun closing h hs => lays_exprs ih closing hs (Nat.le_of_lt_succ h)
        names := fun h hs => lays_names ih hs (Nat.le_of_lt_succ h)
        stmts := fun opening h hs => lays_stmts ih opening hs (Nat.le_of_lt_succ h)
        clauses := fun h hs => lays_clauses ih hs (Nat.le_of_lt_succ h) }

/-- The tokens of a text are in order from its start on, and none of them starts before the text does. -/
theorem ordered_ofTokens {text : List Char} {l : Lexer.TokenList} (h : Lexer.tokenize text = .ok l) :
    (Stream.ofTokens l).Ordered l.tokens ∧ .first ≤ (Stream.ofTokens l).place := by
  have horder : InOrder .first l.tokens l.eof := Lexer.inOrder_scan h
  obtain ⟨_ | ⟨t, ts⟩, eof⟩ := l
  · exact ⟨⟨fun t ht => ht, le_rfl⟩, horder⟩
  · exact ⟨⟨fun t ht => ht, le_rfl, horder.2⟩, horder.1⟩

/-- The nodes of the tree of a text are tidy and follow one another, and none starts before the text does. -/
theorem follow_of_parseModule {origin : String} {text : List Char} {m : Module} (h : parseModule origin text = .ok m) :
    ∃ l hi, Lexer.tokenize text = .ok l ∧ Follow l.tokens .first m.nodes hi := by
  obtain ⟨l, p, htokens, hbody, hm⟩ := parseModule_eq_ok h
  obtain ⟨hs, hplace⟩ := ordered_ofTokens htokens
  have hlays := lays_stmts (lays_parsers l.tokens (Stream.ofTokens l).size) none hs (Nat.le_refl _)
  rw [hbody] at hlays
  refine ⟨l, p.rest.last, htokens, ?_⟩
  rw [Module.nodes, hm]
  exact hlays.2.follow.widen hplace le_rfl

theorem lies_of_parseModule {origin : String} {text : List Char} {m : Module} (h : parseModule origin text = .ok m) :
    ∃ l hi, Lexer.tokenize text = .ok l ∧ Lies l.tokens .first m.nodes hi := by
  obtain ⟨l, hi, htokens, hfollow⟩ := follow_of_parseModule h
  exact ⟨l, hi, htokens, hfollow.lies⟩

end Parser

/-- Spans nest. In the tree of a text every node begins where a token does and ends where one does, further on. It
    contains the nodes below it, and two nodes of which neither is below the other lie apart. -/
theorem spans_nest {origin : String} {text : List Char} {m : Module} (h : Parser.parseModule origin text = .ok m) :
    ∃ l, Lexer.tokenize text = .ok l ∧
      (∀ p n, nodeAt? m.nodes p = some n → .first ≤ n.span.start ∧ Edges l.tokens n.span.start n.span.stop) ∧
      (∀ p q n below, nodeAt? m.nodes p = some n → nodeAt? m.nodes (p ++ q) = some below → n.Contains below) ∧
      (∀ p q n other, nodeAt? m.nodes p = some n → nodeAt? m.nodes q = some other → ¬ p <+: q → ¬ q <+: p →
        n.Apart other) := by
  obtain ⟨l, hi, htokens, hlies⟩ := Parser.lies_of_parseModule h
  refine ⟨l, htokens, fun p n hn => ?_, fun p q n below hn hbelow => hlies.contains hn hbelow,
    fun p q n other hn hother hp hq => hlies.apart_of_parting hn hother hp hq⟩
  obtain ⟨htidy, hstart, -⟩ := hlies.at_path hn
  exact ⟨hstart, htidy.edges⟩

namespace Modified

open FirstLine (columns)

/-- A call of a name in parentheses, under a test that stands behind it. -/
def text : List Char := ['(', 'a', ')', '(', 'b', ')', 'i', 'f', ' ', 'c']

def callee : Expr := .ident "a" (columns 2 3)

def test : Expr := .ident "c" (columns 10 11)

def call : Stmt := .expr (.call callee [.ident "b" (columns 5 6)] (columns 1 7))

def script : Module :=
  ⟨[.ifChain test false (.mk [call] (columns 1 7)) [] .missing (columns 1 11)], columns 1 11⟩

theorem tokenize_text : Lexer.tokenize text =
    .ok ⟨[⟨.punct .lparen, ⟨1, 1⟩, ⟨1, 2⟩⟩, ⟨.ident "a", ⟨1, 2⟩, ⟨1, 3⟩⟩, ⟨.punct .rparen, ⟨1, 3⟩, ⟨1, 4⟩⟩,
      ⟨.punct .lparen, ⟨1, 4⟩, ⟨1, 5⟩⟩, ⟨.ident "b", ⟨1, 5⟩, ⟨1, 6⟩⟩, ⟨.punct .rparen, ⟨1, 6⟩, ⟨1, 7⟩⟩,
      ⟨.keyword .ifWord, ⟨1, 7⟩, ⟨1, 9⟩⟩, ⟨.ident "c", ⟨1, 10⟩, ⟨1, 11⟩⟩], ⟨1, 11⟩⟩ := by
  have ha : Lexer.scanToken 'a' (text.drop 2) = .ok (.ident "a", 1) := by decide +kernel
  have hb : Lexer.scanToken 'b' (text.drop 5) = .ok (.ident "b", 1) := by decide +kernel
  have hif : Lexer.scanToken 'i' (text.drop 7) = .ok (.keyword .ifWord, 2) := by decide +kernel
  have hc : Lexer.scanToken 'c' [] = .ok (.ident "c", 1) := by decide +kernel
  have hend : Lexer.scan ⟨1, 11⟩ [] = .ok ⟨[], ⟨1, 11⟩⟩ := Lexer.scan_of_end rfl
  have htest := Lexer.scan_cons ⟨1, 7⟩ (text.drop 6) rfl hif (Lexer.scan_cons ⟨1, 9⟩ (text.drop 8) rfl hc hend)
  have hargs := Lexer.scan_cons ⟨1, 5⟩ (text.drop 4) rfl hb (Lexer.scan_cons ⟨1, 6⟩ (text.drop 5) rfl rfl htest)
  have hcall := Lexer.scan_cons ⟨1, 3⟩ (text.drop 2) rfl rfl (Lexer.scan_cons ⟨1, 4⟩ (text.drop 3) rfl rfl hargs)
  exact Lexer.scan_cons ⟨1, 1⟩ text rfl rfl (Lexer.scan_cons ⟨1, 2⟩ (text.drop 1) rfl ha hcall)

theorem parse_text : Parser.parseModule "nested" text = .ok script := by
  unfold Parser.parseModule
  rw [tokenize_text]
  rfl

/-- The statement contains the name that is called, and that name is apart from the test, which stands behind it. -/
theorem test_is_apart_from_callee :
    Parser.parseModule "nested" text = .ok script ∧
      nodeAt? script.nodes [0, 1, 0, 0] = some (.expr callee) ∧ nodeAt? script.nodes [0, 0] = some (.expr test) ∧
      (∃ n, nodeAt? script.nodes [0] = some n ∧ .first ≤ n.span.start ∧ n.span.start < n.span.stop ∧
        n.Contains (.expr callee)) ∧
      (TreeNode.expr callee).Apart (.expr test) := by
  obtain ⟨l, -, hedges, hcontains, hapart⟩ := spans_nest parse_text
  refine ⟨parse_text, rfl, rfl, ⟨_, rfl, ?_, ?_, ?_⟩, ?_⟩
  · exact (hedges [0] _ rfl).1
  · exact (hedges [0] _ rfl).2.lt
  · exact hcontains [0] [1, 0, 0] _ _ rfl rfl
  · exact hapart [0, 1, 0, 0] [0, 0] _ _ rfl rfl (by decide) (by decide)

end Modified

end KestrelLang
