import KestrelLang.Grammar.Parser
import KestrelLang.Proofs.Grammar.Splitting

/-! # Properties of the trees that a parser makes

A parser puts trees together from what it has read. So a property that passes from the parts of a tree to the whole
holds of all trees that it makes, once it holds of those that are single tokens. The texts in its errors are those of
tokens as well.

* `Lexeme.Scanned` — lexemes that the lexer makes of texts.
* `ParseCause.Fair` — causes that quote only such lexemes; nothing in them but a string has a blank.
* `TreeProperty` — a property that passes from the parts to the whole.
* `Keeps` — a parser gives only values with a property, and its errors are fair.
* `TreeProperty.of_parseModule` — what a parser makes of a text has every such property. -/

namespace KestrelLang

/-! ## Places -/

def Span.Placed (s : Span) : Prop := 0 < s.start.line

theorem Span.Placed.ne_zero {s : Span} (h : s.Placed) : s ≠ .zero := by
  rintro rfl
  exact absurd (show (0 : Int) < 0 from h) (by decide)

/-! ## Words -/

/-- A text can have the lexeme: its names have letters and no blanks, and its numbers have no blanks. -/
inductive Lexeme.Scanned : Lexeme → Prop
  | name {name : String} : name ≠ "" → ' ' ∉ name.toList → Scanned (.ident name)
  | keyword (word : Keyword) : Scanned (.keyword word)
  | int {digits : String} : ' ' ∉ digits.toList → Scanned (.int digits)
  | float {digits : String} : ' ' ∉ digits.toList → Scanned (.float digits)
  | string (contents : String) : Scanned (.string contents)
  | punct (mark : Punct) : Scanned (.punct mark)

/-- A text can have the lexeme. It is no end of the text, and only a string has a blank in it. -/
def Lexeme.Fair : Lexeme → Prop
  | .eof => False
  | .string _ => True
  | l => ' ' ∉ l.text.toList

/-- What a parser can find: a lexeme of the text, or its end. -/
def Lexeme.Found (l : Lexeme) : Prop := l = .eof ∨ l.Fair

def nameRoles : List String :=
  ["parameter name", "variable name after 'my'", "loop variable", "label", "subroutine name",
    "subroutine name after 'goto &'", "label after 'goto'"]

def ParseCause.Fair : ParseCause → Prop
  | .unterminatedBlock | .invalidAssignmentTarget => True
  | .expectedLexeme wanted found => ' ' ∉ wanted.text.toList ∧ found.Found
  | .expectedName role found => role ∈ nameRoles ∧ found.Found
  | .expectedTerminator found | .unexpectedInExpression found => found.Found
  | .misplacedLabel label found => ' ' ∉ label.toList ∧ found.Found
  | .integerOutOfRange digits | .invalidFloat digits => ' ' ∉ digits.toList
  | .unexpectedCharacter _ | .unterminatedString | .custom _ => False

theorem Punct.no_blank (p : Punct) : ' ' ∉ p.text.toList := by cases p <;> decide

theorem Keyword.no_blank (k : Keyword) : ' ' ∉ k.text.toList := by cases k <;> decide

theorem Lexeme.Scanned.fair {l : Lexeme} (h : l.Scanned) : l.Fair := by
  cases h with
  | name _ hblank | int hblank | float hblank => exact hblank
  | keyword word => exact word.no_blank
  | string contents => trivial
  | punct mark => exact mark.no_blank

def Token.Scanned (t : Token) : Prop := 0 < t.start.line ∧ t.lexeme.Scanned

namespace Lexer

open KestrelLang.Text

theorem line_advanceAll {p : Position} (h : 0 < p.line) (cs : List Char) : 0 < (p.advanceAll cs).line := by
  induction cs generalizing p with
  | nil => exact h
  | cons c cs ih =>
    refine ih ?_
    unfold Position.advance
    split
    · exact Int.add_pos h (by decide)
    · exact h

theorem line_skipTrivia (inComment : Bool) {pos : Position} (h : 0 < pos.line) (cs : List Char) :
    0 < (skipTrivia inComment pos cs).pos.line := by
  fun_induction skipTrivia inComment pos cs with
  | case1 => exact h
  | case2 pos c cs ih => exact ih (line_advanceAll h [c])
  | case3 inComment pos c cs _ _ ih => exact ih (line_advanceAll h [c])
  | case4 inComment pos cs _ _ ih => exact ih (line_advanceAll h ['#'])
  | case5 => exact h

theorem no_blank_takeWhile {p : Char → Bool} (hp : p ' ' = false) (cs : List Char) : ' ' ∉ cs.takeWhile p := by
  intro hblank
  have htaken := List.all_eq_true.mp List.all_takeWhile ' ' hblank
  rw [hp] at htaken
  cases htaken

theorem scanned_scanWord {c : Char} (cs : List Char) (h : isWordStart c = true) :
    (scanWord (c :: cs)).1.Scanned := by
  have hc : isWordChar c = true := by
    unfold isWordStart at h
    unfold isWordChar
    simp [h]
  have hblank : ' ' ∉ (String.ofList ((c :: cs).takeWhile isWordChar)).toList := by
    rw [String.toList_ofList]
    exact no_blank_takeWhile rfl (c :: cs)
  unfold scanWord wordLexeme
  dsimp only
  split
  · exact .keyword _
  · exact .name (by simp [hc]) hblank

theorem scanned_scanNumber (cs : List Char) : (scanNumber cs).1.Scanned := by
  have hwhole : ' ' ∉ (cs.takeWhile isNumberChar).filter (· ≠ '_') :=
    fun hblank => no_blank_takeWhile rfl cs (List.mem_filter.mp hblank).1
  have hint : (Lexeme.int (String.ofList ((cs.takeWhile isNumberChar).filter (· ≠ '_')))).Scanned :=
    .int (by rwa [String.toList_ofList])
  unfold scanNumber
  dsimp only
  split
  · rename_i d more _
    split
    · have hfraction : ' ' ∉ (d :: more).takeWhile isDigit := no_blank_takeWhile rfl _
      refine .float ?_
      simp only [String.toList_ofList, List.mem_append, List.mem_cons, not_or]
      exact ⟨hwhole, by decide, hfraction⟩
    · exact hint
  · exact hint

theorem scanned_scanPunct {c : Char} {cs : List Char} {found : Lexeme × Nat} (h : scanPunct c cs = some found) :
    found.1.Scanned := by
  have hsingle : ∀ r, (Punct.ofChar? c).map (fun p => (Lexeme.punct p, 1)) = some r → r.1.Scanned := by
    intro r hr
    obtain ⟨p, -, rfl⟩ := Option.map_eq_some_iff.mp hr
    exact .punct p
  cases cs with
  | nil => exact hsingle found (by simpa [scanPunct] using h)
  | cons d cs =>
    cases hp : Punct.ofPair? c d with
    | none => exact hsingle found (by simpa [scanPunct, hp] using h)
    | some p =>
      obtain rfl : found = (.punct p, 2) := by simpa [scanPunct, hp] using h.symm
      exact .punct p

theorem scanned_scanToken {c : Char} {cs : List Char} {found : Lexeme × Nat} (h : scanToken c cs = .ok found) :
    found.1.Scanned := by
  unfold scanToken at h
  by_cases hword : isWordStart c = true
  · rw [if_pos hword] at h
    cases h
    exact scanned_scanWord cs hword
  rw [if_neg hword] at h
  by_cases hdigit : isDigit c = true
  · rw [if_pos hdigit] at h
    cases h
    exact scanned_scanNumber (c :: cs)
  rw [if_neg hdigit] at h
  by_cases hquote : (c = '"' || c = '\'') = true
  · rw [if_pos hquote] at h
    cases hcontents : scanContents c cs <;> rw [hcontents] at h <;> cases h
    exact .string _
  rw [if_neg hquote] at h
  cases hmark : scanPunct c cs <;> rw [hmark] at h <;> cases h
  exact scanned_scanPunct hmark

theorem scanned_scan {pos : Position} {cs : List Char} {l : TokenList} (hpos : 0 < pos.line)
    (h : scan pos cs = .ok l) : (∀ t ∈ l.tokens, t.Scanned) ∧ 0 < l.eof.line := by
  induction pos, cs using scan_induction generalizing l with
  | atEnd pos cs stop htrivia =>
    cases (scan_of_end htrivia).symm.trans h
    have hstop := line_skipTrivia false hpos cs
    rw [htrivia] at hstop
    exact ⟨by simp, hstop⟩
  | atError pos cs start c rest cause htrivia hs => cases (scan_of_error htrivia hs).symm.trans h
  | atToken pos cs start c rest lexeme n htrivia hs ih =>
    have hstart := line_skipTrivia false hpos cs
    rw [htrivia] at hstart
    obtain ⟨more, hmore, rfl⟩ := scan_rest htrivia hs h
    obtain ⟨htokens, heof⟩ := ih (line_advanceAll hstart _) hmore
    exact ⟨List.forall_mem_cons.mpr ⟨⟨hstart, scanned_scanToken hs⟩, htokens⟩, heof⟩

end Lexer

/-! ## Trees -/

def AssignOp.takes : AssignOp → Expr → Bool
  | _, .ident .. => true
  | .declare, _ => false
  | _, .index .. => true
  | _, _ => false

/-- The verb exists, and it has a label if it needs one. -/
def Verb.takes : Verb → String → Bool
  | .last, _ | .next, _ | .redo, _ => true
  | .goto, label => label ≠ ""
  | .other _, _ => false

/-- A property of trees, with the ways in which it passes from the parts to the whole. A parser goes no other ways. -/
structure TreeProperty where
  expr : Expr → Prop
  exprs : List Expr → Prop
  stmt : Stmt → Prop
  block : Block → Prop
  stmts : List Stmt → Prop
  clauses : List Clause → Prop
  missing : expr .missing
  undefined {span : Span} : span.Placed → expr (.undefined span)
  int {value : Int64} {span : Span} : span.Placed → expr (.int value span)
  float {value : Float} {span : Span} : span.Placed → expr (.float value span)
  str {value : String} {span : Span} : span.Placed → expr (.str value span)
  ident {name : String} {span : Span} : span.Placed → expr (.ident name span)
  array {elements : List Expr} {span : Span} : span.Placed → exprs elements → expr (.array elements span)
  index {object i : Expr} {span : Span} : span.Placed → expr object → expr i → expr (.index object i span)
  unary {op : UnaryOp} {operand : Expr} {span : Span} : span.Placed → expr operand → expr (.unary op operand span)
  binary {op : BinaryOp} {left right : Expr} {span : Span} : span.Placed → expr left → expr right →
    expr (.binary op left right span)
  assign {op : AssignOp} {left right : Expr} {span : Span} : op.takes left = true → span.Placed → expr left →
    expr right → expr (.assign op left right span)
  call {callee : Expr} {args : List Expr} {span : Span} : span.Placed → expr callee → exprs args →
    expr (.call callee args span)
  closure {params : List Name} {body : Block} {span : Span} : span.Placed → block body →
    expr (.closure params body span)
  noExprs : exprs []
  consExprs {e : Expr} {es : List Expr} : expr e → exprs es → exprs (e :: es)
  plain {e : Expr} : expr e → stmt (.expr e)
  ret {e : Expr} {span : Span} : span.Placed → expr e → stmt (.ret e span)
  bare {label : Option Name} {body : Block} {span : Span} : span.Placed → block body → stmt (.bare label body span)
  whileLoop {label : Option Name} {test : Expr} {negate : Bool} {body : Block} {span : Span} : span.Placed →
    expr test → block body → stmt (.whileLoop label test negate body span)
  forLoop {label : Option Name} {init test step : Expr} {body : Block} {span : Span} : span.Placed → expr init →
    expr test → expr step → block body → stmt (.forLoop label (Parser.initOf init) test step body span)
  foreachLoop {label : Option Name} {item : Name} {iterable : Expr} {body : Block} {span : Span} : span.Placed →
    expr iterable → block body → stmt (.foreachLoop label item iterable body span)
  ifChain {test : Expr} {negate : Bool} {body otherwise : Block} {more : List Clause} {span : Span} :
    span.Placed → expr test → block body → clauses more → block otherwise →
    stmt (.ifChain test negate body more otherwise span)
  verb {kind : Verb} {label : Option Name} {span : Span} : kind.takes (labelText label) = true → span.Placed →
    stmt (.verb kind label span)
  tailCall {callee : Expr} {args : List Expr} {reuse : Bool} {span : Span} : (reuse = true → args = []) →
    span.Placed → expr callee → exprs args → stmt (.tailCall callee args reuse span)
  sub {name : Name} {params : List Name} {body : Block} {span : Span} : span.Placed → block body →
    stmt (.sub name params body span)
  noBlock : block .missing
  body {inside : List Stmt} {span : Span} : stmts inside → block (.mk inside span)
  noStmts : stmts []
  consStmts {s : Stmt} {rest : List Stmt} : stmt s → stmts rest → stmts (s :: rest)
  noClauses : clauses []
  consClauses {test : Expr} {body : Block} {rest : List Clause} : expr test → block body → clauses rest →
    clauses (.mk test body :: rest)

namespace Parser

variable {α β : Type} {n n' : Nat} {s : Stream}

/-! ## Streams -/

theorem next?_of_accept {wanted : Lexeme} {p : Parsed Token s.size} (h : accept wanted s = some p) :
    next? s = some p := by
  unfold accept at h
  cases hnext : next? s with
  | none =>
    rw [hnext] at h
    cases h
  | some p' =>
    simp only [hnext] at h
    split at h <;> cases h
    rfl

/-- All tokens left are those of a text, which ends somewhere. -/
structure Stream.Scanned (s : Stream) : Prop where
  tokens : ∀ t ∈ s.tokens, t.Scanned
  eof : 0 < s.eof.line

theorem Stream.Scanned.place (hs : s.Scanned) : 0 < s.place.line := by
  obtain ⟨_ | ⟨t, ts⟩, eof, last⟩ := s
  · exact hs.eof
  · exact (hs.tokens t List.mem_cons_self).1

theorem Stream.Scanned.peek (hs : s.Scanned) : s.peek.Found := by
  obtain ⟨_ | ⟨t, ts⟩, eof, last⟩ := s
  · exact .inl rfl
  · exact .inr (hs.tokens t List.mem_cons_self).2.fair

theorem Stream.Scanned.next? (hs : s.Scanned) {t : Token} {rest : Stream} {h : rest.size < s.size}
    (hnext : next? s = some ⟨t, rest, h⟩) : t.Scanned ∧ rest.Scanned := by
  obtain ⟨_ | ⟨t', ts⟩, eof, last⟩ := s
  · cases hnext
  · cases hnext
    obtain ⟨ht, hts⟩ := List.forall_mem_cons.mp hs.tokens
    exact ⟨ht, hts, hs.eof⟩

theorem Stream.Scanned.accept (hs : s.Scanned) {wanted : Lexeme} {t : Token} {rest : Stream} {h : rest.size < s.size}
    (haccept : accept wanted s = some ⟨t, rest, h⟩) : t.Scanned ∧ rest.Scanned :=
  hs.next? (next?_of_accept haccept)

/-! ## Parsers -/

/-- If the parser succeeds, its value has the property and tokens of a text are left; otherwise its error is fair. -/
def Keeps (Q : α → Prop) : Result α n → Prop
  | .error e => e.cause.Fair
  | .ok p => Q p.value ∧ p.rest.Scanned

theorem Keeps.bind {Q : α → Prop} {R : β → Prop} {x : Result α n} {f : Parsed α n → Result β n'} (hx : Keeps Q x)
    (hf : ∀ v rest h, Q v → rest.Scanned → Keeps R (f ⟨v, rest, h⟩)) : Keeps R (x >>= f) := by
  cases x with
  | error e => exact hx
  | ok p => exact hf p.value p.rest p.shorter hx.1 hx.2

theorem keeps_pure {Q : α → Prop} {v : α} {h : s.size < n} (hv : Q v) (hs : s.Scanned) :
    Keeps Q (pure ⟨v, s, h⟩ : Result α n) := ⟨hv, hs⟩

theorem keeps_expect (hs : s.Scanned) {wanted : Lexeme} (hwanted : ' ' ∉ wanted.text.toList) :
    Keeps Token.Scanned (expect wanted s) := by
  unfold expect
  cases haccept : accept wanted s with
  | none => exact ⟨hwanted, hs.peek⟩
  | some p => exact hs.accept haccept

theorem keeps_mark (hs : s.Scanned) (p : Punct) : Keeps Token.Scanned (expect (mark p) s) := keeps_expect hs p.no_blank

def TakenName (name : Name) : Prop := name.span.Placed ∧ name.text ≠ "" ∧ ' ' ∉ name.text.toList

theorem keeps_expectName (hs : s.Scanned) {role : String} (hrole : role ∈ nameRoles) :
    Keeps TakenName (expectName role s) := by
  obtain ⟨_ | ⟨⟨lexeme, start, stop⟩, ts⟩, eof, last⟩ := s
  · exact ⟨hrole, .inl rfl⟩
  · obtain ⟨⟨hstart, hlexeme⟩, hrest⟩ := List.forall_mem_cons.mp hs.tokens
    cases hlexeme with
    | name hne hblank => exact ⟨⟨hstart, hne, hblank⟩, hrest, hs.eof⟩
    | _ => exact ⟨hrole, hs.peek⟩

structure Shorter.Keeps {k : Nat} (P : TreeProperty) (r : Shorter k) : Prop where
  expr : ∀ {s} h, s.Scanned → Parser.Keeps P.expr (r.expr s h)
  binary : ∀ {s} min h, s.Scanned → Parser.Keeps P.expr (r.binary min s h)
  operators : ∀ {s left start} min h, 0 < start.line → P.expr left → s.Scanned →
    Parser.Keeps P.expr (r.operators min start left s h)
  suffixes : ∀ {s e start} h, 0 < start.line → P.expr e → s.Scanned → Parser.Keeps P.expr (r.suffixes start e s h)
  exprs : ∀ {s} closing h, s.Scanned → Parser.Keeps P.exprs (r.exprs closing s h)
  names : ∀ {s} h, s.Scanned → Parser.Keeps (fun _ => True) (r.names s h)
  stmts : ∀ {s} opening h, s.Scanned → Parser.Keeps P.stmts (r.stmts opening s h)
  clauses : ∀ {s} h, s.Scanned → Parser.Keeps P.clauses (r.clauses s h)

section Constructs

variable {P : TreeProperty} {k : Nat} {r : Shorter k} (hr : r.Keeps P)
include hr

theorem keeps_block (hs : s.Scanned) (h : s.size ≤ k) : Keeps P.block (block r s h) := by
  unfold block
  refine (keeps_mark hs _).bind fun opening s1 h1 _ hs1 => ?_
  refine (hr.stmts _ _ hs1).bind fun body s2 h2 hbody hs2 => ?_
  exact (keeps_mark hs2 _).bind fun _ s3 h3 _ hs3 => keeps_pure (P.body hbody) hs3

theorem keeps_names (hs : s.Scanned) (h : s.size ≤ k) : Keeps (fun _ => True) (names r s h) := by
  unfold names
  split
  · exact keeps_pure trivial hs
  refine (keeps_expectName hs (by decide)).bind fun name s1 h1 _ hs1 => ?_
  dsimp only
  split
  · rename_i haccept
    refine (hr.names _ (hs1.accept haccept).2).bind fun rest s3 h3 _ hs3 => keeps_pure trivial hs3
  · exact keeps_pure trivial hs1

theorem keeps_params (hs : s.Scanned) (h : s.size ≤ k) : Keeps (fun _ => True) (params r s h) := by
  unfold params
  split
  · exact keeps_pure trivial hs
  · rename_i haccept
    refine (hr.names _ (hs.accept haccept).2).bind fun list s2 h2 _ hs2 => ?_
    exact (keeps_mark hs2 _).bind fun _ s3 h3 _ hs3 => keeps_pure trivial hs3

omit hr in
theorem keeps_intLiteral (hs : s.Scanned) {t : Token} {digits : String} (ht : t.Scanned)
    (hdigits : t.lexeme = .int digits) : Keeps P.expr (intLiteral t s digits) := by
  unfold intLiteral
  split
  · exact ⟨P.int ht.1, hs⟩
  · have hscanned := ht.2
    rw [hdigits] at hscanned
    exact hscanned.fair

omit hr in
theorem keeps_floatLiteral (hs : s.Scanned) {t : Token} {digits : String} (ht : t.Scanned)
    (hdigits : t.lexeme = .float digits) : Keeps P.expr (floatLiteral t s digits) := by
  unfold floatLiteral
  split
  · exact ⟨P.float ht.1, hs⟩
  · have hscanned := ht.2
    rw [hdigits] at hscanned
    exact hscanned.fair

theorem keeps_primary (hs : s.Scanned) (h : s.size ≤ k) : Keeps P.expr (primary r s h) := by
  unfold primary
  split
  · exact hs.peek
  rename_i t s1 h1 hnext
  obtain ⟨ht, hs1⟩ := hs.next? hnext
  split
  · rename_i hdigits
    exact (keeps_intLiteral hs1 ht hdigits).bind fun e s2 h2 he hs2 => keeps_pure he hs2
  · rename_i hdigits
    exact (keeps_floatLiteral hs1 ht hdigits).bind fun e s2 h2 he hs2 => keeps_pure he hs2
  · exact keeps_pure (P.str ht.1) hs1
  · exact keeps_pure (P.ident ht.1) hs1
  · exact keeps_pure (P.undefined ht.1) hs1
  · refine (keeps_params hr hs1 _).bind fun list s2 h2 _ hs2 => ?_
    exact (keeps_block hr hs2 _).bind fun body s3 h3 hbody hs3 => keeps_pure (P.closure ht.1 hbody) hs3
  · refine (hr.expr _ hs1).bind fun e s2 h2 he hs2 => ?_
    exact (keeps_mark hs2 _).bind fun _ s3 h3 _ hs3 => keeps_pure he hs3
  · refine (hr.exprs _ _ hs1).bind fun elements s2 h2 helements hs2 => ?_
    exact (keeps_mark hs2 _).bind fun _ s3 h3 _ hs3 => keeps_pure (P.array ht.1 helements) hs3
  · exact .inr ht.2.fair

theorem keeps_arguments (hs : s.Scanned) (h : s.size ≤ k) : Keeps P.exprs (arguments r s h) := by
  unfold arguments
  refine (keeps_mark hs _).bind fun _ s1 h1 _ hs1 => ?_
  refine (hr.exprs _ _ hs1).bind fun list s2 h2 hlist hs2 => ?_
  exact (keeps_mark hs2 _).bind fun _ s3 h3 _ hs3 => keeps_pure hlist hs3

theorem keeps_suffixes {e : Expr} {start : Position} (hstart : 0 < start.line) (he : P.expr e) (hs : s.Scanned)
    (h : s.size ≤ k) : Keeps P.expr (suffixes r start e s h) := by
  unfold suffixes
  split
  · refine (keeps_arguments hr hs _).bind fun args s1 h1 hargs hs1 => ?_
    refine (hr.suffixes _ hstart ?_ hs1).bind fun whole s2 h2 hwhole hs2 => keeps_pure hwhole hs2
    exact P.call hstart he hargs
  · split
    · exact keeps_pure he hs
    · rename_i haccept
      refine (hr.expr _ (hs.accept haccept).2).bind fun index s2 h2 hindex hs2 => ?_
      refine (keeps_mark hs2 _).bind fun _ s3 h3 _ hs3 => ?_
      refine (hr.suffixes _ hstart ?_ hs3).bind fun whole s4 h4 hwhole hs4 => keeps_pure hwhole hs4
      exact P.index hstart he hindex

theorem keeps_suffixed (hs : s.Scanned) (h : s.size ≤ k) : Keeps P.expr (suffixed r s h) := by
  unfold suffixed
  refine (keeps_primary hr hs _).bind fun e s1 h1 he hs1 => ?_
  exact (keeps_suffixes hr hs.place he hs1 _).bind fun whole s2 h2 hwhole hs2 => keeps_pure hwhole hs2

theorem keeps_unary (hs : s.Scanned) (h : s.size ≤ k) : Keeps P.expr (unary r s h) := by
  unfold unary
  split
  · rename_i hnext
    obtain ⟨ht, hs1⟩ := hs.next? hnext
    exact (hr.binary _ _ hs1).bind fun operand s2 h2 hoperand hs2 => keeps_pure (P.unary ht.1 hoperand) hs2
  · exact keeps_suffixed hr hs h

theorem keeps_operators {left : Expr} {start : Position} (min : Nat) (hstart : 0 < start.line) (hleft : P.expr left)
    (hs : s.Scanned) (h : s.size ≤ k) : Keeps P.expr (operators r min start left s h) := by
  unfold operators
  split
  · rename_i hnext
    split
    · exact keeps_pure hleft hs
    · refine (hr.binary _ _ (hs.next? hnext).2).bind fun right s2 h2 hright hs2 => ?_
      refine (hr.operators _ _ hstart ?_ hs2).bind fun whole s3 h3 hwhole hs3 => keeps_pure hwhole hs3
      exact P.binary hstart hleft hright
  · exact keeps_pure hleft hs

theorem keeps_binary (min : Nat) (hs : s.Scanned) (h : s.size ≤ k) : Keeps P.expr (binary r min s h) := by
  unfold binary
  refine (keeps_unary hr hs _).bind fun left s1 h1 hleft hs1 => ?_
  exact (keeps_operators hr _ hs.place hleft hs1 _).bind fun whole s2 h2 hwhole hs2 => keeps_pure hwhole hs2

theorem keeps_declaration {start : Position} (hstart : 0 < start.line) (hs : s.Scanned) (h : s.size ≤ k) :
    Keeps P.expr (declaration r start s h) := by
  unfold declaration
  refine (keeps_expectName hs (by decide)).bind fun name s1 h1 hname hs1 => ?_
  dsimp only
  split
  · rename_i haccept
    exact (hr.expr _ (hs1.accept haccept).2).bind fun value s3 h3 hvalue hs3 =>
      keeps_pure (P.assign rfl hstart (P.ident hname.1) hvalue) hs3
  · exact keeps_pure (P.assign rfl hstart (P.ident hname.1) P.missing) hs1

omit hr in
/-- An operator that was read is no declaration, so it takes names and elements. -/
theorem takes_of_isTarget {l : Lexeme} {op : AssignOp} {left : Expr} (hop : assignOp? l = some op)
    (hleft : isTarget left = true) : op.takes left = true := by
  have hne : op ≠ .declare := by
    rintro rfl
    unfold assignOp? at hop
    split at hop <;> simp at hop
  cases left <;> cases hleft
  · rfl
  · cases op <;> first | rfl | exact absurd rfl hne

theorem keeps_expression (hs : s.Scanned) (h : s.size ≤ k) : Keeps P.expr (expression r s h) := by
  unfold expression
  split
  · rename_i haccept
    exact (keeps_declaration hr hs.place (hs.accept haccept).2 _).bind fun e s2 h2 he hs2 => keeps_pure he hs2
  · refine (keeps_binary hr 0 hs h).bind fun left s1 h1 hleft hs1 => ?_
    dsimp only
    split
    · rename_i hop hnext
      split
      · rename_i htarget
        exact (hr.expr _ (hs1.next? hnext).2).bind fun right s3 h3 hright hs3 =>
          keeps_pure (P.assign (takes_of_isTarget hop htarget) hs.place hleft hright) hs3
      · trivial
    · exact keeps_pure hleft hs1

theorem keeps_exprs (closing : Punct) (hs : s.Scanned) (h : s.size ≤ k) :
    Keeps P.exprs (exprs r closing s h) := by
  unfold exprs
  split
  · exact keeps_pure P.noExprs hs
  refine (keeps_expression hr hs h).bind fun e s1 h1 he hs1 => ?_
  dsimp only
  split
  · rename_i haccept
    exact (hr.exprs _ _ (hs1.accept haccept).2).bind fun rest s3 h3 hrest hs3 =>
      keeps_pure (P.consExprs he hrest) hs3
  · exact keeps_pure (P.consExprs he P.noExprs) hs1

/-! ## Statements -/

theorem keeps_parenthesised (hs : s.Scanned) (h : s.size ≤ k) : Keeps P.expr (parenthesised r s h) := by
  unfold parenthesised
  refine (keeps_mark hs _).bind fun _ s1 h1 _ hs1 => ?_
  refine (hr.expr _ hs1).bind fun e s2 h2 he hs2 => ?_
  exact (keeps_mark hs2 _).bind fun _ s3 h3 _ hs3 => keeps_pure he hs3

theorem keeps_bareBlock (label : Option Name) {start : Position} (hstart : 0 < start.line) (hs : s.Scanned)
    (h : s.size ≤ k) : Keeps P.stmt (bareBlock r label start s h) := by
  unfold bareBlock
  exact (keeps_block hr hs _).bind fun body s1 h1 hbody hs1 => keeps_pure (P.bare hstart hbody) hs1

theorem keeps_whileTail (label : Option Name) (negate : Bool) {start : Position} (hstart : 0 < start.line)
    (hs : s.Scanned) (h : s.size ≤ k) : Keeps P.stmt (whileTail r label negate start s h) := by
  unfold whileTail
  refine (keeps_parenthesised hr hs _).bind fun test s1 h1 htest hs1 => ?_
  exact (keeps_block hr hs1 _).bind fun body s2 h2 hbody hs2 => keeps_pure (P.whileLoop hstart htest hbody) hs2

theorem keeps_foreachTail (label : Option Name) {start : Position} (hstart : 0 < start.line) (hs : s.Scanned)
    (h : s.size ≤ k) : Keeps P.stmt (foreachTail r label start s h) := by
  unfold foreachTail
  have hmy : ' ' ∉ (word .myWord).text.toList := Keyword.no_blank .myWord
  refine (keeps_expect hs hmy).bind fun _ s1 h1 _ hs1 => ?_
  refine (keeps_expectName hs1 (by decide)).bind fun item s2 h2 _ hs2 => ?_
  refine (keeps_parenthesised hr hs2 _).bind fun iterable s3 h3 hiterable hs3 => ?_
  exact (keeps_block hr hs3 _).bind fun body s4 h4 hbody hs4 =>
    keeps_pure (P.foreachLoop hstart hiterable hbody) hs4

theorem keeps_headerPart (closing : Punct) (hs : s.Scanned) (h : s.size ≤ k) :
    Keeps P.expr (headerPart r closing s h) := by
  unfold headerPart
  split
  · exact (keeps_mark hs _).bind fun _ s1 h1 _ hs1 => keeps_pure P.missing hs1
  · refine (keeps_expression hr hs h).bind fun e s1 h1 he hs1 => ?_
    exact (keeps_mark hs1 _).bind fun _ s2 h2 _ hs2 => keeps_pure he hs2

theorem keeps_forTail (label : Option Name) {start : Position} (hstart : 0 < start.line) (hs : s.Scanned)
    (h : s.size ≤ k) : Keeps P.stmt (forTail r label start s h) := by
  unfold forTail
  split
  · exact keeps_foreachTail hr label hstart hs h
  refine (keeps_mark hs _).bind fun _ s1 h1 _ hs1 => ?_
  refine (keeps_headerPart hr _ hs1 _).bind fun init s2 h2 hinit hs2 => ?_
  refine (keeps_headerPart hr _ hs2 _).bind fun test s3 h3 htest hs3 => ?_
  refine (keeps_headerPart hr _ hs3 _).bind fun step s4 h4 hstep hs4 => ?_
  exact (keeps_block hr hs4 _).bind fun body s5 h5 hbody hs5 =>
    keeps_pure (P.forLoop hstart hinit htest hstep hbody) hs5

theorem keeps_loop? {label : Option Name} {start : Position} (hstart : 0 < start.line) {h : s.size ≤ k}
    {result : Result Stmt s.size} (hs : s.Scanned) (hloop : loop? r label start s h = some result) :
    Keeps P.stmt result := by
  unfold loop? at hloop
  split at hloop
  · cases hloop
    exact keeps_bareBlock hr label hstart hs h
  · rename_i hnext
    cases hloop
    exact (keeps_whileTail hr label false hstart (hs.next? hnext).2 _).bind fun e s2 h2 he hs2 =>
      keeps_pure he hs2
  · rename_i hnext
    cases hloop
    exact (keeps_whileTail hr label true hstart (hs.next? hnext).2 _).bind fun e s2 h2 he hs2 =>
      keeps_pure he hs2
  · rename_i hnext
    cases hloop
    exact (keeps_forTail hr label hstart (hs.next? hnext).2 _).bind fun e s2 h2 he hs2 => keeps_pure he hs2
  · rename_i hnext
    cases hloop
    exact (keeps_foreachTail hr label hstart (hs.next? hnext).2 _).bind fun e s2 h2 he hs2 =>
      keeps_pure he hs2
  · cases hloop

theorem keeps_labeled (hs : s.Scanned) (h : s.size ≤ k) : Keeps P.stmt (labeled r s h) := by
  unfold labeled
  refine (keeps_expectName hs (by decide)).bind fun label s1 h1 hlabel hs1 => ?_
  refine (keeps_mark hs1 _).bind fun _ s2 h2 _ hs2 => ?_
  dsimp only
  split
  · rename_i hloop
    exact (keeps_loop? hr hs.place hs2 hloop).bind fun stmt s3 h3 hstmt hs3 => keeps_pure hstmt hs3
  · exact ⟨hlabel.2.2, hs2.peek⟩

theorem keeps_clauses (hs : s.Scanned) (h : s.size ≤ k) : Keeps P.clauses (clauses r s h) := by
  unfold clauses
  split
  · exact keeps_pure P.noClauses hs
  · rename_i haccept
    refine (keeps_parenthesised hr (hs.accept haccept).2 _).bind fun test s2 h2 htest hs2 => ?_
    refine (keeps_block hr hs2 _).bind fun body s3 h3 hbody hs3 => ?_
    exact (hr.clauses _ hs3).bind fun rest s4 h4 hrest hs4 => keeps_pure (P.consClauses htest hbody hrest) hs4

theorem keeps_otherwise (hs : s.Scanned) (h : s.size ≤ k) : Keeps P.block (otherwise r s h) := by
  unfold otherwise
  split
  · exact keeps_pure P.noBlock hs
  · rename_i haccept
    exact (keeps_block hr (hs.accept haccept).2 _).bind fun body s2 h2 hbody hs2 => keeps_pure hbody hs2

theorem keeps_ifTail (negate : Bool) {start : Position} (hstart : 0 < start.line) (hs : s.Scanned) (h : s.size ≤ k) :
    Keeps P.stmt (ifTail r negate start s h) := by
  unfold ifTail
  refine (keeps_parenthesised hr hs _).bind fun test s1 h1 htest hs1 => ?_
  refine (keeps_block hr hs1 _).bind fun body s2 h2 hbody hs2 => ?_
  refine (keeps_clauses hr hs2 _).bind fun more s3 h3 hmore hs3 => ?_
  exact (keeps_otherwise hr hs3 _).bind fun last s4 h4 hlast hs4 =>
    keeps_pure (P.ifChain hstart htest hbody hmore hlast) hs4

theorem keeps_subTail {start : Position} (hstart : 0 < start.line) (hs : s.Scanned) (h : s.size ≤ k) :
    Keeps P.stmt (subTail r start s h) := by
  unfold subTail
  refine (keeps_expectName hs (by decide)).bind fun name s1 h1 _ hs1 => ?_
  refine (keeps_params hr hs1 _).bind fun list s2 h2 _ hs2 => ?_
  exact (keeps_block hr hs2 _).bind fun body s3 h3 hbody hs3 => keeps_pure (P.sub hstart hbody) hs3

omit hr in
theorem keeps_verbTail {verb : Verb} (hverb : ∀ label, verb.takes label = true) {start : Position}
    (hstart : 0 < start.line) (hs : s.Scanned) : Keeps P.stmt (verbTail verb start s) := by
  unfold verbTail
  split
  · rename_i hnext
    exact ⟨P.verb (hverb _) hstart, (hs.next? hnext).2⟩
  · exact ⟨P.verb (hverb _) hstart, hs⟩

theorem keeps_gotoTail {start : Position} (hstart : 0 < start.line) (hs : s.Scanned) (h : s.size ≤ k) :
    Keeps P.stmt (gotoTail r start s h) := by
  unfold gotoTail
  split
  · rename_i haccept
    refine (keeps_expectName (hs.accept haccept).2 (by decide)).bind fun name s2 h2 hname hs2 => ?_
    dsimp only
    split
    · exact (keeps_arguments hr hs2 _).bind fun args s3 h3 hargs hs3 =>
        keeps_pure (P.tailCall nofun hstart (P.ident hname.1) hargs) hs3
    · exact keeps_pure (P.tailCall (fun _ => rfl) hstart (P.ident hname.1) P.noExprs) hs2
  -- The label of a `goto` is a name that was read, so it is not empty.
  · exact (keeps_expectName hs (by decide)).bind fun label s1 h1 hlabel hs1 =>
      keeps_pure (P.verb (decide_eq_true hlabel.2.1) hstart) hs1

theorem keeps_returnTail {start : Position} (hstart : 0 < start.line) (hs : s.Scanned) (h : s.size ≤ k) :
    Keeps P.stmt (returnTail r start s h) := by
  unfold returnTail
  split
  · exact keeps_pure (P.ret hstart P.missing) hs
  · exact (keeps_expression hr hs h).bind fun e s1 h1 he hs1 => keeps_pure (P.ret hstart he) hs1

theorem keeps_simple (hs : s.Scanned) (h : s.size ≤ k) : Keeps P.stmt (simple r s h) := by
  unfold simple
  split
  · rename_i hnext
    obtain ⟨ht, hs1⟩ := hs.next? hnext
    exact (keeps_verbTail (fun _ => rfl) ht.1 hs1).bind fun stmt s2 h2 hstmt hs2 => keeps_pure hstmt hs2
  · rename_i hnext
    obtain ⟨ht, hs1⟩ := hs.next? hnext
    exact (keeps_verbTail (fun _ => rfl) ht.1 hs1).bind fun stmt s2 h2 hstmt hs2 => keeps_pure hstmt hs2
  · rename_i hnext
    obtain ⟨ht, hs1⟩ := hs.next? hnext
    exact (keeps_verbTail (fun _ => rfl) ht.1 hs1).bind fun stmt s2 h2 hstmt hs2 => keeps_pure hstmt hs2
  · rename_i hnext
    obtain ⟨ht, hs1⟩ := hs.next? hnext
    exact (keeps_gotoTail hr ht.1 hs1 _).bind fun stmt s2 h2 hstmt hs2 => keeps_pure hstmt hs2
  · rename_i hnext
    obtain ⟨ht, hs1⟩ := hs.next? hnext
    exact (keeps_returnTail hr ht.1 hs1 _).bind fun stmt s2 h2 hstmt hs2 => keeps_pure hstmt hs2
  · exact (keeps_expression hr hs h).bind fun e s1 h1 he hs1 => keeps_pure (P.plain he) hs1

theorem keeps_modifier {stmt : Stmt} (hstmt : P.stmt stmt) {start : Position} (hstart : 0 < start.line) (hs : s.Scanned)
    (h : s.size ≤ k) : Keeps P.stmt (modifier r stmt start s h) := by
  unfold modifier
  split
  · rename_i hnext
    exact (hr.expr _ (hs.next? hnext).2).bind fun test s2 h2 htest hs2 =>
      keeps_pure (P.ifChain hstart htest (P.body (P.consStmts hstmt P.noStmts)) P.noClauses P.noBlock) hs2
  · rename_i hnext
    exact (hr.expr _ (hs.next? hnext).2).bind fun test s2 h2 htest hs2 =>
      keeps_pure (P.ifChain hstart htest (P.body (P.consStmts hstmt P.noStmts)) P.noClauses P.noBlock) hs2
  · exact keeps_pure hstmt hs

omit hr in
theorem keeps_terminator (hs : s.Scanned) : Keeps (fun _ => True) (terminator s) := by
  unfold terminator
  split
  · rename_i haccept
    exact ⟨trivial, (hs.accept haccept).2⟩
  · split
    · exact ⟨trivial, hs⟩
    · exact hs.peek

theorem keeps_terminated (hs : s.Scanned) (h : s.size ≤ k) : Keeps P.stmt (terminated r s h) := by
  unfold terminated
  refine (keeps_simple hr hs _).bind fun stmt s1 h1 hstmt hs1 => ?_
  refine (keeps_modifier hr hstmt hs.place hs1 _).bind fun whole s2 h2 hwhole hs2 => ?_
  exact (keeps_terminator hs2).bind fun _ s3 h3 _ hs3 => keeps_pure hwhole hs3

theorem keeps_plain (hs : s.Scanned) (h : s.size ≤ k) : Keeps P.stmt (plain r s h) := by
  unfold plain
  split
  · rename_i hnext
    obtain ⟨ht, hs1⟩ := hs.next? hnext
    exact (keeps_subTail hr ht.1 hs1 _).bind fun stmt s2 h2 hstmt hs2 => keeps_pure hstmt hs2
  · rename_i hnext
    obtain ⟨ht, hs1⟩ := hs.next? hnext
    exact (keeps_ifTail hr false ht.1 hs1 _).bind fun stmt s2 h2 hstmt hs2 => keeps_pure hstmt hs2
  · rename_i hnext
    obtain ⟨ht, hs1⟩ := hs.next? hnext
    exact (keeps_ifTail hr true ht.1 hs1 _).bind fun stmt s2 h2 hstmt hs2 => keeps_pure hstmt hs2
  · exact keeps_terminated hr hs h

theorem keeps_statement (hs : s.Scanned) (h : s.size ≤ k) : Keeps P.stmt (statement r s h) := by
  unfold statement
  split
  · exact keeps_labeled hr hs h
  · split
    · rename_i hloop
      exact keeps_loop? hr hs.place hs hloop
    · exact keeps_plain hr hs h

theorem keeps_stmts (opening : Option Position) (hs : s.Scanned) (h : s.size ≤ k) :
    Keeps P.stmts (stmts r opening s h) := by
  unfold stmts
  split
  · exact keeps_pure P.noStmts hs
  · trivial
  · exact keeps_pure P.noStmts hs
  · split
    · rename_i haccept
      exact (hr.stmts _ _ (hs.accept haccept).2).bind fun rest s2 h2 hrest hs2 => keeps_pure hrest hs2
    · refine (keeps_statement hr hs h).bind fun stmt s1 h1 hstmt hs1 => ?_
      exact (hr.stmts _ _ hs1).bind fun rest s2 h2 hrest hs2 => keeps_pure (P.consStmts hstmt hrest) hs2

end Constructs

/-! ## The whole text -/

theorem keeps_parsers (P : TreeProperty) (k : Nat) : (parsers k).Keeps P := by
  induction k with
  -- The parsers of depth zero are for no stream at all.
  | zero => constructor <;> intros <;> exact absurd ‹_ < 0› (Nat.not_lt_zero _)
  | succ k ih =>
    exact
      { expr := fun h hs => keeps_expression ih hs (Nat.le_of_lt_succ h)
        binary := fun min h hs => keeps_binary ih min hs (Nat.le_of_lt_succ h)
        operators := fun min h hstart hleft hs => keeps_operators ih min hstart hleft hs (Nat.le_of_lt_succ h)
        suffixes := fun h hstart he hs => keeps_suffixes ih hstart he hs (Nat.le_of_lt_succ h)
        exprs := fun closing h hs => keeps_exprs ih closing hs (Nat.le_of_lt_succ h)
        names := fun h hs => keeps_names ih hs (Nat.le_of_lt_succ h)
        stmts := fun opening h hs => keeps_stmts ih opening hs (Nat.le_of_lt_succ h)
        clauses := fun h hs => keeps_clauses ih hs (Nat.le_of_lt_succ h) }

theorem scanned_ofTokens {text : List Char} {l : Lexer.TokenList} (h : Lexer.tokenize text = .ok l) :
    (Stream.ofTokens l).Scanned := by
  obtain ⟨htokens, heof⟩ := Lexer.scanned_scan (by decide) h
  exact ⟨htokens, heof⟩

theorem parseModule_eq_ok {origin : String} {text : List Char} {m : Module} (h : parseModule origin text = .ok m) :
    ∃ l p, Lexer.tokenize text = .ok l ∧
      stmts (parsers (Stream.ofTokens l).size) none (Stream.ofTokens l) (Nat.le_refl _) = .ok p ∧ m.body = p.value := by
  unfold parseModule at h
  cases htokens : Lexer.tokenize text with
  | error e =>
    rw [htokens] at h
    cases h
  | ok l =>
    simp only [htokens, parseTokens] at h
    cases hbody : stmts (parsers (Stream.ofTokens l).size) none (Stream.ofTokens l) (Nat.le_refl _) with
    | error e =>
      rw [hbody] at h
      cases h
    | ok p =>
      rw [hbody] at h
      cases h
      exact ⟨l, p, rfl, hbody, rfl⟩

end Parser

namespace TreeProperty

open KestrelLang.Parser

/-- The tree of a text has every property that passes from the parts to the whole. -/
theorem of_parseModule (P : TreeProperty) {origin : String} {text : List Char} {m : Module}
    (h : parseModule origin text = .ok m) : P.stmts m.body := by
  obtain ⟨l, p, htokens, hbody, hm⟩ := parseModule_eq_ok h
  have hkeeps := keeps_stmts (keeps_parsers P (Stream.ofTokens l).size) none (scanned_ofTokens htokens) (Nat.le_refl _)
  rw [hbody] at hkeeps
  exact hm ▸ hkeeps.1

end TreeProperty

end KestrelLang
