import KestrelLang.Proofs.Grammar.Cursor
import KestrelLang.Proofs.Grammar.Stretches

/-! # The loops of the parser

A parser that reads a list, or one operator after the other, goes round in a loop. A round either takes a token and
hands what has been read to the next round, or it is the last one. So there are at most as many rounds as tokens are
left, and one more.

* `Loop`, `Loop.round`, `Loop.act` — the loops, one round of each, and all rounds from a given state on.
* `Loop.act_eq` — a loop is its rounds.
* `turned_round` — a round takes a token or is the last one.
* `Turns`, `turns_act` — the rounds of a loop, counted.
* `Accounts`, `accounts_stmts` — the statements of a text account for all of its tokens.
* `Construct`, `parser_makes_progress` — what holds of all parsers together. -/

namespace KestrelLang.Parser

open Lexer (TokenList)

/-! ## One round -/

/-- How a round ends: with the value of the loop, or with the state for the next round. -/
inductive Turn (σ α : Type) where
  | leave (v : α)
  | again (state : σ)

/-- The loops, by the type of what has been read so far and of the value in the end. -/
inductive Loop : Type → Type → Type
  | statements (opening : Option Position) : Loop (List Stmt) (List Stmt)
  | operators (min : Nat) (start : Position) : Loop Expr Expr
  | suffixes (start : Position) : Loop Expr Expr
  | exprs (closing : Punct) : Loop (List Expr) (List Expr)
  | names : Loop (List Name) (List Name)
  | clauses : Loop (List Clause) (List Clause)

variable {σ α : Type}

/-- The brace behind which the loop goes round, if any. -/
def Loop.opening : Loop σ α → Option Position
  | .statements opening => opening
  | _ => none

namespace Act

def round : Loop σ α → σ → Act (Turn σ α)
  | .statements opening, read => do
    let l ← peek
    if Closes opening l then return .leave read
    else if l = .eof then return .leave (read ++ (← unterminated opening))
    else if l = mark .semicolon then
      let _ ← token
      return .again read
    else return .again (read ++ [← statement])
  | .operators min start, left => do
    match infixLevel? (← peek) with
    | some (level, op) =>
      if level ≤ min then return .leave left
      else
        let _ ← token
        let right ← binary level
        return .again (.binary op left right (← since start))
    | none => return .leave left
  | .suffixes start, e => do
    if (← peek) = mark .lparen then
      let args ← arguments
      return .again (.call e args (← since start))
    else if (← peek) = mark .lbracket then
      let _ ← token
      let index ← expression
      let _ ← expect (mark .rbracket)
      return .again (.index e index (← since start))
    else return .leave e
  | .exprs closing, read => do
    if (← peek) = mark closing then return .leave read
    else
      let e ← expression
      if (← peek) = mark .comma then
        let _ ← token
        return .again (read ++ [e])
      else return .leave (read ++ [e])
  | .names, read => do
    if (← peek) = mark .rparen then return .leave read
    else
      let name ← expectName "parameter name"
      if (← peek) = mark .comma then
        let _ ← token
        return .again (read ++ [name])
      else return .leave (read ++ [name])
  | .clauses, read => do
    if (← peek) = word .elsifWord then
      let _ ← token
      let test ← parenthesised
      let body ← block
      return .again (read ++ [.mk test body])
    else return .leave read

def loop : Loop σ α → σ → Act α
  | .statements opening, read => do return read ++ (← stmts opening)
  | .operators min start, left => operators min start left
  | .suffixes start, e => suffixes start e
  | .exprs closing, read => do return read ++ (← exprs closing)
  | .names, read => do return read ++ (← names)
  | .clauses, read => do return read ++ (← clauses)

theorem loop_eq (form : Loop σ α) (state : σ) : loop form state = (do
    match ← round form state with
    | .leave v => return v
    | .again next => loop form next) := by
  -- Each loop of the parser calls itself at the end of its body, so unfolding it once gives its round. Where a round
  -- puts what it read behind what was read before, the appends are regrouped.
  cases form with
  | statements opening =>
    simp only [loop, round, bind_assoc]
    conv => lhs; rw [stmts_eq, bind_assoc]
    refine bind_congr fun l => ?_
    split
    · simp only [pure_bind, List.append_nil]
    split
    · simp only [bind_assoc, pure_bind]
    split
    · simp only [bind_assoc, pure_bind]
    · simp only [bind_assoc, pure_bind, List.append_assoc, List.singleton_append]
  | operators min start =>
    simp only [loop, round, bind_assoc]
    conv => lhs; rw [operators_eq]
    refine bind_congr fun l => ?_
    cases infixLevel? l with
    | none => rw [pure_bind]
    | some found =>
      obtain ⟨level, op⟩ := found
      dsimp only
      split
      · rw [pure_bind]
      · simp only [bind_assoc, pure_bind]
  | suffixes start =>
    simp only [loop, round, bind_assoc]
    conv => lhs; rw [suffixes_eq]
    refine bind_congr fun l => ?_
    split
    · simp only [bind_assoc, pure_bind]
    · simp only [bind_assoc]
      refine bind_congr fun l => ?_
      split
      · simp only [bind_assoc, pure_bind]
      · rw [pure_bind]
  | exprs closing =>
    simp only [loop, round, bind_assoc]
    conv => lhs; rw [exprs_eq, bind_assoc]
    refine bind_congr fun l => ?_
    split
    · simp only [pure_bind, List.append_nil]
    · simp only [bind_assoc]
      refine bind_congr fun e => bind_congr fun l => ?_
      split
      · simp only [bind_assoc, pure_bind, List.append_assoc, List.singleton_append]
      · simp only [pure_bind]
  | names =>
    simp only [loop, round, bind_assoc]
    conv => lhs; rw [names_eq, bind_assoc]
    refine bind_congr fun l => ?_
    split
    · simp only [pure_bind, List.append_nil]
    · simp only [bind_assoc]
      refine bind_congr fun name => bind_congr fun l => ?_
      split
      · simp only [bind_assoc, pure_bind, List.append_assoc, List.singleton_append]
      · simp only [pure_bind]
  | clauses =>
    simp only [loop, round, bind_assoc]
    conv => lhs; rw [clauses_eq, bind_assoc]
    refine bind_congr fun l => ?_
    split
    · simp only [bind_assoc, pure_bind, List.append_assoc, List.singleton_append]
    · simp only [pure_bind, List.append_nil]

end Act

variable {σ α β : Type} {l : TokenList} {opening : Option Position} {p q k : Nat}

/-! ## Every round takes a token or is the last one -/

/-- What a round makes of the stream of the cursor `p`: it leaves the loop, or the next round starts further behind,
    or it gives up. -/
inductive Turned (l : TokenList) (opening : Option Position) (p : Nat) :
    Except ParseError (Turn σ α × Stream) → Prop
  | left {v : α} {q : Nat} : p ≤ q → q ≤ l.tokens.length → Turned l opening p (.ok (.leave v, Stream.cursor l q))
  | again {next : σ} {q : Nat} : p < q → q ≤ l.tokens.length →
    Turned l opening p (.ok (.again next, Stream.cursor l q))
  | failed {e : ParseError} {q : Nat} : p ≤ q → q ≤ l.tokens.length → Stops l opening p q e →
    Turned l opening p (.error e)

theorem Turned.bind {a : Act β} {f : β → Act (Turn σ α)} (ha : Progress l opening q k (a (Stream.cursor l q)))
    (hpq : p ≤ q) (hf : ∀ v r, q + k ≤ r → r ≤ l.tokens.length → Turned l opening p (f v (Stream.cursor l r))) :
    Turned l opening p ((a >>= f) (Stream.cursor l q)) := by
  show Turned l opening p (a (Stream.cursor l q) >>= fun r => f r.1 r.2)
  generalize a (Stream.cursor l q) = outcome at ha
  cases ha with
  | @done v r hr hrn => exact hf v r hr hrn
  | failed hqr hrn hstops => exact .failed (Nat.le_trans hpq hqr) hrn (hstops.earlier hpq)

theorem Turned.ite {c : Prop} [Decidable c] {a b : Act (Turn σ α)} {s : Stream}
    (ha : c → Turned l opening p (a s)) (hb : ¬ c → Turned l opening p (b s)) :
    Turned l opening p ((if c then a else b) s) := by
  by_cases hc : c
  · rw [if_pos hc]
    exact ha hc
  · rw [if_neg hc]
    exact hb hc

theorem turned_spanned (hpq : p < q) (hq : q ≤ l.tokens.length) (start : Position) (next : Span → σ) :
    Turned l opening p ((do return .again (next (← Act.since start)) : Act (Turn σ α)) (Stream.cursor l q)) :=
  .again hpq hq

theorem turned_round (h : Beyond l p) (hp : p ≤ l.tokens.length) (form : Loop σ α) (state : σ) :
    Turned l form.opening p (Act.round form state (Stream.cursor l p)) := by
  have hle : p ≤ p := Nat.le_refl p
  -- A round that goes on has taken a token or called a construct that takes one.
  cases form with
  | statements opening =>
    rw [Act.round, Act.bind_peek]
    refine .ite (fun _ => .left hle hp) fun hopen => .ite (fun heof => ?_) fun _ => .ite (fun _ => ?_) fun _ => ?_
    · obtain rfl := eq_of_peek_eof h hp heof
      cases opening with
      | none => exact absurd heof hopen
      | some place => exact .failed hle hp (.opened rfl)
    · exact .bind (progress_token hp) hle fun _ q hq hqn => .again hq hqn
    · exact .bind (progress_statement h hle hp).within hle fun stmt q hq hqn => .again hq hqn
  | operators min start =>
    rw [Act.round, Act.bind_peek]
    cases infixLevel? (Stream.cursor l p).peek with
    | none => exact .left hle hp
    | some found =>
      obtain ⟨level, op⟩ := found
      refine .ite (fun _ => .left hle hp) fun _ => ?_
      refine .bind (progress_token hp) hle fun _ q1 h1 hq1 => ?_
      exact .bind (h.binary _ q1 h1 hq1) (by omega) fun right q2 h2 hq2 => turned_spanned (by omega) hq2 _ _
  | suffixes start =>
    rw [Act.round, Act.bind_peek]
    refine .ite (fun _ => ?_) fun _ => ?_
    · exact .bind (progress_arguments h hle hp) hle fun args q hq hqn => turned_spanned hq hqn _ _
    · rw [Act.bind_peek]
      refine .ite (fun _ => ?_) fun _ => .left hle hp
      refine .bind (progress_token hp) hle fun _ q1 h1 hq1 => ?_
      refine .bind (h.expr q1 h1 hq1) (by omega) fun index q2 h2 hq2 => ?_
      exact .bind (progress_expect hq2 _) (by omega) fun _ q3 h3 hq3 => turned_spanned (by omega) hq3 _ _
  | exprs closing =>
    rw [Act.round, Act.bind_peek]
    refine .ite (fun _ => .left hle hp) fun _ => ?_
    refine .bind (progress_expression h hle hp) hle fun e q1 h1 hq1 => ?_
    rw [Act.bind_peek]
    refine .ite (fun _ => ?_) fun _ => .left (by omega) hq1
    exact .bind (progress_token hq1) (by omega) fun _ q2 h2 hq2 => .again (by omega) hq2
  | names =>
    rw [Act.round, Act.bind_peek]
    refine .ite (fun _ => .left hle hp) fun _ => ?_
    refine .bind (progress_expectName hp _) hle fun name q1 h1 hq1 => ?_
    rw [Act.bind_peek]
    refine .ite (fun _ => ?_) fun _ => .left (by omega) hq1
    exact .bind (progress_token hq1) (by omega) fun _ q2 h2 hq2 => .again (by omega) hq2
  | clauses =>
    rw [Act.round, Act.bind_peek]
    refine .ite (fun _ => ?_) fun _ => .left hle hp
    refine .bind (progress_token hp) hle fun _ q1 h1 hq1 => ?_
    refine .bind (progress_parenthesised h (by omega) hq1) (by omega) fun test q2 h2 hq2 => ?_
    exact .bind (progress_block h (by omega) hq2) (by omega) fun body q3 h3 hq3 => .again (by omega) hq3

/-! ## All rounds -/

/-- The outcome of a loop after `rounds` more rounds from the cursor `p`. All but the last one took a token. -/
inductive Turns (l : TokenList) (form : Loop σ α) : Nat → σ → Nat → Except ParseError (α × Stream) → Prop
  | left {state : σ} {v : α} {p q : Nat} : Act.round form state (Stream.cursor l p) = .ok (.leave v, Stream.cursor l q) →
    p ≤ q → q ≤ l.tokens.length → Turns l form 1 state p (.ok (v, Stream.cursor l q))
  | failed {state : σ} {e : ParseError} {p q : Nat} : Act.round form state (Stream.cursor l p) = .error e →
    p ≤ q → q ≤ l.tokens.length → Stops l form.opening p q e → Turns l form 1 state p (.error e)
  | again {state next : σ} {rounds p q : Nat} {outcome : Except ParseError (α × Stream)} :
    Act.round form state (Stream.cursor l p) = .ok (.again next, Stream.cursor l q) → p < q → q ≤ l.tokens.length →
    Turns l form rounds next q outcome → Turns l form (rounds + 1) state p outcome

theorem turns_act (honly : ∀ t ∈ l.tokens, t.lexeme ≠ .eof) (form : Loop σ α) (state : σ) (hp : p ≤ l.tokens.length) :
    ∃ rounds, rounds ≤ l.tokens.length - p + 1 ∧
      Turns l form rounds state p (Act.loop form state (Stream.cursor l p)) := by
  induction hleft : l.tokens.length - p using Nat.strongRecOn generalizing p state with
  | ind left ih =>
    have hround := turned_round (beyond honly p) hp form state
    rw [Act.loop_eq]
    cases houtcome : Act.round form state (Stream.cursor l p) with
    | error e =>
      rw [houtcome] at hround
      rw [bind_of_error houtcome]
      cases hround with
      | failed hpq hq hstops => exact ⟨1, Nat.le_add_left 1 _, .failed houtcome hpq hq hstops⟩
    | ok found =>
      obtain ⟨turn, rest⟩ := found
      rw [houtcome] at hround
      rw [bind_of_ok houtcome]
      cases hround with
      | left hpq hq => exact ⟨1, Nat.le_add_left 1 _, .left houtcome hpq hq⟩
      | @again next q hpq hq =>
        -- A token was taken, so fewer are left for the rounds to come.
        obtain ⟨rounds, hrounds, hturns⟩ := ih (l.tokens.length - q) (by omega) next hq rfl
        exact ⟨rounds + 1, by omega, .again houtcome hpq hq hturns⟩

/-! ## The tokens of a text -/

/-- From the token `p` to the end of the text, every token belongs to one of the statements or is a semicolon
    between them. -/
inductive Accounts (l : TokenList) : Nat → List Stmt → Prop
  | done : Accounts l l.tokens.length []
  | empty {p : Nat} {t : Token} {body : List Stmt} : l.toList[p]? = some t → t.lexeme = mark .semicolon →
    Accounts l (p + 1) body → Accounts l p body
  | statement {p q : Nat} {stmt : Stmt} {body : List Stmt} :
    Act.statement (Stream.cursor l p) = .ok (stmt, Stream.cursor l q) → p < q → Accounts l q body →
    Accounts l p (stmt :: body)

theorem accounts_stmts (honly : ∀ t ∈ l.tokens, t.lexeme ≠ .eof) (hp : p ≤ l.tokens.length) {body : List Stmt}
    {rest : Stream} (h : Act.stmts none (Stream.cursor l p) = .ok (body, rest)) : Accounts l p body := by
  -- The induction is on the tokens that are left: every statement and every semicolon takes some.
  induction hleft : l.tokens.length - p using Nat.strongRecOn generalizing p body with
  | ind left ih =>
    rw [Act.stmts_eq, Act.bind_peek] at h
    by_cases hend : (Stream.cursor l p).peek = .eof
    · rw [if_pos (show Act.Closes none _ from hend)] at h
      cases h
      rw [eq_of_peek_eof (beyond honly p) hp hend]
      exact .done
    rw [if_neg (show ¬ Act.Closes none _ from hend), if_neg hend] at h
    have hlt : p < l.tokens.length := by
      refine Nat.lt_of_le_of_ne hp fun heq => hend ?_
      rw [heq, cursor_of_end]
      rfl
    by_cases hsemicolon : (Stream.cursor l p).peek = mark .semicolon
    · rw [if_pos hsemicolon, (cursor_of_lt l hlt).1, Act.bind_token, ← (cursor_of_lt l hlt).2] at h
      rw [(cursor_of_lt l hlt).1] at hsemicolon
      exact .empty (getElem?_toList l hlt) hsemicolon (ih (l.tokens.length - (p + 1)) (by omega) hlt h rfl)
    · rw [if_neg hsemicolon] at h
      have hstatement := progress_statement (beyond honly p) (Nat.le_refl p) hp
      cases hfirst : Act.statement (Stream.cursor l p) with
      | error e =>
        rw [bind_of_error hfirst] at h
        cases h
      | ok found =>
        obtain ⟨stmt, between⟩ := found
        rw [hfirst] at hstatement
        rw [bind_of_ok hfirst] at h
        cases hstatement with
        | @done _ q hpq hq =>
          cases hothers : Act.stmts none (Stream.cursor l q) with
          | error e =>
            rw [bind_of_error hothers] at h
            cases h
          | ok others =>
            rw [bind_of_ok hothers] at h
            cases h
            exact .statement hfirst hpq (ih (l.tokens.length - q) (by omega) hq hothers rfl)

/-- What becomes of a text: it has a place where no token can be read, or one where the parser gives up, or its tree
    accounts for all of its tokens. -/
inductive Settled (origin : String) (text : List Char) : Except ParseError Module → Prop
  | unread {e : ParseError} : Lexer.tokenize text = .error e → Settled origin text (.error { e with origin := origin })
  | refused {l : TokenList} {e : ParseError} {q : Nat} : Lexer.tokenize text = .ok l →
    (∀ t ∈ l.tokens, t.lexeme ≠ .eof) → q ≤ l.tokens.length → Stops l none 0 q e →
    Settled origin text (.error { e with origin := origin })
  | parsed {l : TokenList} {m : Module} : Lexer.tokenize text = .ok l → (∀ t ∈ l.tokens, t.lexeme ≠ .eof) →
    Accounts l 0 m.body → m.span = ⟨(Stream.cursor l 0).place, l.eof⟩ → Settled origin text (.ok m)

theorem parseTokens_eq (l : TokenList) : parseTokens l =
    (Act.stmts none (Stream.cursor l 0)).map fun r => ⟨r.1, ⟨(Stream.cursor l 0).place, l.eof⟩⟩ := by
  rw [← ofTokens_eq_cursor]
  unfold parseTokens Act.stmts unbounded
  dsimp only
  cases stmts (parsers (Stream.ofTokens l).size) none (Stream.ofTokens l) (Nat.le_refl _) <;> rfl

theorem settled (origin : String) (text : List Char) : Settled origin text (parseModule origin text) := by
  unfold parseModule
  cases htokens : Lexer.tokenize text with
  | error e => exact .unread htokens
  | ok l =>
    have honly := Lexer.ne_eof_of_tokenize htokens
    have hstmts := progress_stmts (beyond honly 0) (Nat.le_refl 0) (Nat.zero_le _) none
    dsimp only
    rw [parseTokens_eq]
    cases hbody : Act.stmts none (Stream.cursor l 0) with
    | error e =>
      rw [hbody] at hstmts
      cases hstmts with
      | failed _ hq hstops => exact .refused htokens honly hq hstops
    | ok found => exact .parsed htokens honly (accounts_stmts honly (Nat.zero_le _) hbody) rfl

/-! ## All parsers -/

inductive Construct : Type → Type
  | token : Construct Token
  | expect (wanted : Lexeme) : Construct Token
  | expectName (role : String) : Construct Name
  | block : Construct Block
  | names : Construct (List Name)
  | params : Construct (List Name)
  | primary : Construct Expr
  | arguments : Construct (List Expr)
  | suffixes (start : Position) (e : Expr) : Construct Expr
  | suffixed : Construct Expr
  | unary : Construct Expr
  | operators (min : Nat) (start : Position) (left : Expr) : Construct Expr
  | binary (min : Nat) : Construct Expr
  | declaration (start : Position) : Construct Expr
  | expression : Construct Expr
  | exprs (closing : Punct) : Construct (List Expr)
  | parenthesised : Construct Expr
  | bareBlock (label : Option Name) (start : Position) : Construct Stmt
  | whileTail (label : Option Name) (negate : Bool) (start : Position) : Construct Stmt
  | foreachTail (label : Option Name) (start : Position) : Construct Stmt
  | headerPart (closing : Punct) : Construct Expr
  | forTail (label : Option Name) (start : Position) : Construct Stmt
  | labeled : Construct Stmt
  | clauses : Construct (List Clause)
  | otherwise : Construct Block
  | ifTail (negate : Bool) (start : Position) : Construct Stmt
  | subTail (start : Position) : Construct Stmt
  | verbTail (verb : Verb) (start : Position) : Construct Stmt
  | gotoTail (start : Position) : Construct Stmt
  | returnTail (start : Position) : Construct Stmt
  | simple : Construct Stmt
  | modifier (stmt : Stmt) (start : Position) : Construct Stmt
  | terminator : Construct Unit
  | terminated : Construct Stmt
  | plain : Construct Stmt
  | statement : Construct Stmt
  | stmts : Construct (List Stmt)

def Construct.act : Construct α → Act α
  | .token => Act.token
  | .expect wanted => Act.expect wanted
  | .expectName role => Act.expectName role
  | .block => Act.block
  | .names => Act.names
  | .params => Act.params
  | .primary => Act.primary
  | .arguments => Act.arguments
  | .suffixes start e => Act.suffixes start e
  | .suffixed => Act.suffixed
  | .unary => Act.unary
  | .operators min start left => Act.operators min start left
  | .binary min => Act.binary min
  | .declaration start => Act.declaration start
  | .expression => Act.expression
  | .exprs closing => Act.exprs closing
  | .parenthesised => Act.parenthesised
  | .bareBlock label start => Act.bareBlock label start
  | .whileTail label negate start => Act.whileTail label negate start
  | .foreachTail label start => Act.foreachTail label start
  | .headerPart closing => Act.headerPart closing
  | .forTail label start => Act.forTail label start
  | .labeled => Act.labeled
  | .clauses => Act.clauses
  | .otherwise => Act.otherwise
  | .ifTail negate start => Act.ifTail negate start
  | .subTail start => Act.subTail start
  | .verbTail verb start => Act.verbTail verb start
  | .gotoTail start => Act.gotoTail start
  | .returnTail start => Act.returnTail start
  | .simple => Act.simple
  | .modifier stmt start => Act.modifier stmt start
  | .terminator => Act.terminator
  | .terminated => Act.terminated
  | .plain => Act.plain
  | .statement => Act.statement
  | .stmts => Act.stmts none

/-- How many tokens the parser takes at least. Only what may be left out takes none. -/
def Construct.least : Construct α → Nat
  | .names | .params | .suffixes .. | .operators .. | .exprs _ | .clauses | .otherwise | .verbTail .. | .returnTail _
  | .modifier .. | .terminator | .stmts => 0
  | _ => 1

theorem progress_construct (h : Beyond l p) (hp : p ≤ l.tokens.length) (f : Construct α) :
    Progress l none p f.least (f.act (Stream.cursor l p)) := by
  have hle : p ≤ p := Nat.le_refl p
  cases f with
  | token => exact progress_token hp
  | expect wanted => exact progress_expect hp wanted
  | expectName role => exact progress_expectName hp role
  | block => exact progress_block h hle hp
  | names => exact progress_names h hle hp
  | params => exact progress_params h hle hp
  | primary => exact progress_primary h hle hp
  | arguments => exact progress_arguments h hle hp
  | suffixes start e => exact progress_suffixes h hle hp start e
  | suffixed => exact progress_suffixed h hle hp
  | unary => exact progress_unary h hle hp
  | operators min start left => exact progress_operators h hle hp min start left
  | binary min => exact progress_binary h hle hp min
  | declaration start => exact progress_declaration h hle hp start
  | expression => exact progress_expression h hle hp
  | exprs closing => exact progress_exprs h hle hp closing
  | parenthesised => exact progress_parenthesised h hle hp
  | bareBlock label start => exact progress_bareBlock h hle hp label start
  | whileTail label negate start => exact progress_whileTail h hle hp label negate start
  | foreachTail label start => exact progress_foreachTail h hle hp label start
  | headerPart closing => exact progress_headerPart h hle hp closing
  | forTail label start => exact progress_forTail h hle hp label start
  | labeled => exact progress_labeled h hle hp
  | clauses => exact progress_clauses h hle hp
  | otherwise => exact progress_otherwise h hle hp
  | ifTail negate start => exact progress_ifTail h hle hp negate start
  | subTail start => exact progress_subTail h hle hp start
  | verbTail verb start => exact progress_verbTail hp verb start
  | gotoTail start => exact progress_gotoTail h hle hp start
  | returnTail start => exact progress_returnTail h hle hp start
  | simple => exact progress_simple h hle hp
  | modifier stmt start => exact progress_modifier h hle hp stmt start
  | terminator => exact progress_terminator hp
  | terminated => exact progress_terminated h hle hp
  | plain => exact progress_plain h hle hp
  | statement => exact progress_statement h hle hp
  | stmts => exact progress_stmts h hle hp none

/-- Parsers make progress. On a token list that ends in its only end of the text, with the cursor there at the latest,
    all that a parser can see of its stream stands in the list, a parser moves the cursor forward and not past the
    end, and a loop goes round at most once for each token that is left, and once more. So every text becomes a tree
    that accounts for all of its tokens, or there is a complaint about one place in it. -/
theorem parser_makes_progress :
    (∀ l : TokenList, (∀ t ∈ l.tokens, t.lexeme ≠ .eof) → ∀ p, p ≤ l.tokens.length →
      Sees l p ∧
      (∀ {α : Type} (f : Construct α), Progress l none p f.least (f.act (Stream.cursor l p))) ∧
      (∀ {σ α : Type} (form : Loop σ α) (state : σ), ∃ rounds, rounds ≤ l.tokens.length - p + 1 ∧
        Turns l form rounds state p (Act.loop form state (Stream.cursor l p)))) ∧
    ∀ (origin : String) (bytes : List UInt8),
      Settled origin (Text.decodeUtf8 bytes) (parseModule origin (Text.decodeUtf8 bytes)) := by
  refine ⟨fun l honly p hp => ⟨sees l hp, fun f => ?_, fun form state => ?_⟩, fun origin bytes => ?_⟩
  · exact progress_construct (beyond honly p) hp f
  · exact turns_act honly form state hp
  · exact settled origin _

/-! ## Nested loops -/

namespace Nested

open FirstLine (columns token)

/-- The text `while(f(a,sub{x+1})){y;}`, in bytes. -/
def source : List UInt8 :=
  [119, 104, 105, 108, 101, 40, 102, 40, 97, 44, 115, 117, 98, 123, 120, 43, 49, 125, 41, 41, 123, 121, 59, 125]

def tokens : TokenList :=
  ⟨[token (.keyword .whileWord) 1 6, token (.punct .lparen) 6 7, token (.ident "f") 7 8, token (.punct .lparen) 8 9,
    token (.ident "a") 9 10, token (.punct .comma) 10 11, token (.keyword .subWord) 11 14,
    token (.punct .lbrace) 14 15, token (.ident "x") 15 16, token (.punct .plus) 16 17, token (.int "1") 17 18,
    token (.punct .rbrace) 18 19, token (.punct .rparen) 19 20, token (.punct .rparen) 20 21,
    token (.punct .lbrace) 21 22, token (.ident "y") 22 23, token (.punct .semicolon) 23 24,
    token (.punct .rbrace) 24 25], ⟨1, 25⟩⟩

def closure : Expr :=
  .closure [] (.mk [.expr (.binary .add (.ident "x" (columns 15 16)) (.int 1 (columns 17 18)) (columns 15 18))]
    (columns 14 19)) (columns 11 19)

def statement : Stmt :=
  .whileLoop none (.call (.ident "f" (columns 7 8)) [.ident "a" (columns 9 10), closure] (columns 7 20)) false
    (.mk [.expr (.ident "y" (columns 22 23))] (columns 21 25)) (columns 1 25)

theorem tokenize_source : Lexer.tokenize (Text.decodeUtf8 source) = .ok tokens := by
  let body : List Char := ['1', '\x7d', ')', ')', '\x7b', 'y', ';', '\x7d']
  let closure : List Char := ['\x7b', 'x', '+'] ++ body
  let args : List Char := ['a', ',', 's', 'u', 'b'] ++ closure
  let text : List Char := ['w', 'h', 'i', 'l', 'e', '(', 'f', '('] ++ args
  have htext : Text.decodeUtf8 source = text := by decide
  have hwhile : Lexer.scanToken 'w' text.tail = .ok (.keyword .whileWord, 5) := by decide +kernel
  have hf : Lexer.scanToken 'f' ('(' :: args) = .ok (.ident "f", 1) := by decide +kernel
  have ha : Lexer.scanToken 'a' args.tail = .ok (.ident "a", 1) := by decide +kernel
  have hsub : Lexer.scanToken 's' (['u', 'b'] ++ closure) = .ok (.keyword .subWord, 3) := by decide +kernel
  have hx : Lexer.scanToken 'x' ('+' :: body) = .ok (.ident "x", 1) := by decide +kernel
  have hone : Lexer.scanToken '1' body.tail = .ok (.int "1", 1) := by decide +kernel
  have hy : Lexer.scanToken 'y' [';', '\x7d'] = .ok (.ident "y", 1) := by decide +kernel
  have hend : Lexer.scan ⟨1, 25⟩ [] = .ok ⟨[], ⟨1, 25⟩⟩ := Lexer.scan_of_end rfl
  -- From the last token to the first.
  have hblock := Lexer.scan_cons ⟨1, 21⟩ ['\x7b', 'y', ';', '\x7d'] rfl rfl
    (Lexer.scan_cons ⟨1, 22⟩ ['y', ';', '\x7d'] rfl hy
      (Lexer.scan_cons ⟨1, 23⟩ [';', '\x7d'] rfl rfl (Lexer.scan_cons ⟨1, 24⟩ ['\x7d'] rfl rfl hend)))
  have hbody := Lexer.scan_cons ⟨1, 17⟩ body rfl hone
    (Lexer.scan_cons ⟨1, 18⟩ body.tail rfl rfl
      (Lexer.scan_cons ⟨1, 19⟩ (body.drop 2) rfl rfl (Lexer.scan_cons ⟨1, 20⟩ (body.drop 3) rfl rfl hblock)))
  have hclosure := Lexer.scan_cons ⟨1, 14⟩ closure rfl rfl
    (Lexer.scan_cons ⟨1, 15⟩ closure.tail rfl hx (Lexer.scan_cons ⟨1, 16⟩ (closure.drop 2) rfl rfl hbody))
  have hargs := Lexer.scan_cons ⟨1, 9⟩ args rfl ha
    (Lexer.scan_cons ⟨1, 10⟩ args.tail rfl rfl (Lexer.scan_cons ⟨1, 11⟩ (args.drop 2) rfl hsub hclosure))
  rw [htext]
  exact Lexer.scan_cons ⟨1, 1⟩ text rfl hwhile
    (Lexer.scan_cons ⟨1, 6⟩ (text.drop 5) rfl rfl
      (Lexer.scan_cons ⟨1, 7⟩ (text.drop 6) rfl hf (Lexer.scan_cons ⟨1, 8⟩ (text.drop 7) rfl rfl hargs)))

theorem parse_source : parseModule "nested" (Text.decodeUtf8 source) = .ok ⟨[statement], columns 1 25⟩ := by
  unfold parseModule
  rw [tokenize_source]
  rfl

/-- The loop takes all eighteen tokens, and the arguments in its test take ten of them. The loops of the parser over the
    arguments, over the operators and over the statements of the closure go round no more often than tokens are left,
    and once more. The one statement accounts for all tokens. -/
theorem loop_takes_all :
    Act.statement (Stream.cursor tokens 0) = .ok (statement, Stream.cursor tokens 18) ∧
      Progress tokens none 0 1 (Act.statement (Stream.cursor tokens 0)) ∧
      Act.arguments (Stream.cursor tokens 3) = .ok ([.ident "a" (columns 9 10), closure], Stream.cursor tokens 13) ∧
      Progress tokens none 3 1 (Act.arguments (Stream.cursor tokens 3)) ∧
      (∃ rounds, rounds ≤ 15 ∧
        Turns tokens (.exprs .rparen) rounds [] 4 (Act.loop (.exprs .rparen) [] (Stream.cursor tokens 4))) ∧
      (∃ rounds, rounds ≤ 11 ∧ Turns tokens (.statements (some ⟨1, 14⟩)) rounds [] 8
        (Act.loop (.statements (some ⟨1, 14⟩)) [] (Stream.cursor tokens 8))) ∧
      (∃ rounds, rounds ≤ 10 ∧ Turns tokens (.operators 0 ⟨1, 15⟩) rounds (.ident "x" (columns 15 16)) 9
        (Act.loop (.operators 0 ⟨1, 15⟩) (.ident "x" (columns 15 16)) (Stream.cursor tokens 9))) ∧
      Accounts tokens 0 [statement] := by
  have hparts := parser_makes_progress.1 tokens (by decide)
  refine ⟨rfl, (hparts 0 (by decide)).2.1 .statement, rfl, (hparts 3 (by decide)).2.1 .arguments,
    (hparts 4 (by decide)).2.2 (.exprs .rparen) [], (hparts 8 (by decide)).2.2 (.statements (some ⟨1, 14⟩)) [],
    (hparts 9 (by decide)).2.2 (.operators 0 ⟨1, 15⟩) _, ?_⟩
  have hsettled := parser_makes_progress.2 "nested" source
  rw [parse_source] at hsettled
  cases hsettled with
  | parsed htokens _ haccounts _ =>
    cases htokens.symm.trans tokenize_source
    exact haccounts

end Nested

end KestrelLang.Parser
