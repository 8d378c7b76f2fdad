import KestrelLang.Number.Prefixed
import KestrelLang.Settings.Yaml.Problem

/-! # The text of YAML scalars

* `Yaml.Gap` — blanks and line breaks between two words of a scalar; `Gap.text` folds them.
* `Yaml.plainScalar` — a scalar without quotes.
* `Yaml.singleScalar`, `Yaml.doubleScalar` — scalars between quotes, after the opening one.
* `Yaml.blockScalar` — a scalar in lines of its own, after its bar or angle.

Each returns the text of the scalar and the cursor after it. -/

namespace KestrelLang.Yaml

/-! ## Folding -/

/-- Blanks and line breaks between two words. Once there is a line break, blanks no longer count. -/
inductive Gap where
  /-- Blanks only, the last one first. -/
  | blanks (seen : List Char)
  /-- A first line break, unless it was escaped, and the later ones, the last one first. -/
  | folded (first : Option Char) (later : List Char)
  deriving DecidableEq, Repr, Inhabited

namespace Gap

def empty : Gap := .blanks []

def addBlank (c : Char) : Gap → Gap
  | .blanks seen => .blanks (c :: seen)
  | .folded first later => .folded first later

def addBreak (c : Char) : Gap → Gap
  | .blanks _ => .folded (some c) []
  | .folded first later => .folded first (c :: later)

def isFolded : Gap → Bool
  | .blanks _ => false
  | .folded _ _ => true

/-- What a gap stands for: blanks for themselves, one line feed for a space, and several for one
    less. -/
def text : Gap → List Char
  | .blanks seen => seen.reverse
  | .folded (some '\n') [] => [' ']
  | .folded (some '\n') later => later.reverse
  | .folded (some c) later => c :: later.reverse
  | .folded none later => later.reverse

end Gap

def withGap (seen : List Char) (gap : Gap) : List Char := gap.text.reverse ++ seen

/-! ## Plain scalars -/

/-- Where a plain scalar stands: between brackets or not, and the least column of its later lines. -/
structure PlainPlace where
  inFlow : Bool
  column : Nat
  start : Mark
  deriving DecidableEq, Repr, Inhabited

/-- A plain scalar: its text, the cursor after it and after the gap that follows it, and whether that
    gap has a line break. -/
structure PlainScalar where
  text : String
  cursor : Cursor
  folded : Bool
  deriving Inhabited

def endsPlain (inFlow : Bool) : List Char → Bool
  | [] => true
  | c :: cs => (c = ':' && endsWord cs) || (inFlow && ",?[]\x7b\x7d".toList.contains c)

def endsPlainAfterGap (p : PlainPlace) (c : Cursor) : Bool :=
  (!p.inFlow && c.mark.column < p.column) || c.rest.head? = some '#'
    || c.atDocumentMark '-' || c.atDocumentMark '.'

def plainFrom (p : PlainPlace) (seen : List Char) (gap : Gap) (m : Mark) :
    List Char → Except SyntaxError PlainScalar
  | [] => .ok ⟨String.ofList seen.reverse, ⟨m, []⟩, gap.isFolded⟩
  | c :: cs =>
    if isBlank c then
      if gap.isFolded && c = '\t' && m.column < p.column then
        .error (.inText .tabInPlain p.start m)
      else plainFrom p seen (gap.addBlank c) (m.after c) cs
    else if isBreak c then plainFrom p seen (gap.addBreak c) (m.after c) cs
    else if endsPlain p.inFlow (c :: cs) || (gap ≠ .empty && endsPlainAfterGap p ⟨m, c :: cs⟩) then
      .ok ⟨String.ofList seen.reverse, ⟨m, c :: cs⟩, gap.isFolded⟩
    else plainFrom p (c :: withGap seen gap) .empty (m.after c) cs

def plainScalar (inFlow : Bool) (column : Nat) (c : Cursor) : Except SyntaxError PlainScalar :=
  plainFrom ⟨inFlow, column, c.mark⟩ [] .empty c.mark c.rest

/-! ## Quoted scalars -/

structure QuotedText where
  seen : List Char := []
  gap : Gap := .empty
  deriving Inhabited

namespace QuotedText

def add (q : QuotedText) (c : Char) : QuotedText := ⟨c :: withGap q.seen q.gap, .empty⟩

def addGap (q : QuotedText) (c : Char) : QuotedText :=
  { q with gap := if isBlank c then q.gap.addBlank c else q.gap.addBreak c }

/-- An escaped line break, which leaves nothing behind. -/
def addEscapedBreak (q : QuotedText) : QuotedText := ⟨withGap q.seen q.gap, .folded none []⟩

def text (q : QuotedText) : String := String.ofList (withGap q.seen q.gap).reverse

end QuotedText

/-- A document mark, which no quoted scalar may hold. -/
def atAnyDocumentMark (m : Mark) (cs : List Char) : Bool :=
  Cursor.atDocumentMark ⟨m, cs⟩ '-' || Cursor.atDocumentMark ⟨m, cs⟩ '.'

/-- Reads a scalar up to its closing single quote; a quote is written twice. -/
def singleFrom (start : Mark) (q : QuotedText) (m : Mark) :
    List Char → Except SyntaxError (String × Cursor)
  | [] => .error (.inText .unclosedQuote start m)
  | '\'' :: '\'' :: cs => singleFrom start (q.add '\'') ((m.after '\'').after '\'') cs
  | '\'' :: cs => .ok (q.text, ⟨m.after '\'', cs⟩)
  | c :: cs =>
    if atAnyDocumentMark m (c :: cs) then .error (.inText .documentMarkInQuotes start m)
    else if isBlank c || isBreak c then singleFrom start (q.addGap c) (m.after c) cs
    else singleFrom start (q.add c) (m.after c) cs

def singleScalar (start : Mark) (c : Cursor) : Except SyntaxError (String × Cursor) :=
  singleFrom start {} c.mark c.rest

def shortEscape? : Char → Option Char
  | '0' => some '\x00'
  | 'a' => some '\x07'
  | 'b' => some '\x08'
  | 't' | '\t' => some '\t'
  | 'n' => some '\n'
  | 'v' => some '\x0b'
  | 'f' => some '\x0c'
  | 'r' => some '\r'
  | 'e' => some '\x1b'
  | ' ' => some ' '
  | '"' => some '"'
  | '\'' => some '\''
  | '\\' => some '\\'
  | 'N' => some (Char.ofNat 0x85)
  | '_' => some (Char.ofNat 0xa0)
  | 'L' => some (Char.ofNat 0x2028)
  | 'P' => some (Char.ofNat 0x2029)
  | _ => none

def escapeDigits? : Char → Option Nat
  | 'x' => some 2
  | 'u' => some 4
  | 'U' => some 8
  | _ => none

def charOf? (n : Nat) : Option Char := if n.isValidChar then some (Char.ofNat n) else none

/-- Reads a scalar up to its closing double quote. `code` is a numeric escape that is being read: the
    digits that are left, and the value so far. -/
def doubleFrom (start : Mark) (q : QuotedText) (code : Nat × Nat) (m : Mark) :
    List Char → Except SyntaxError (String × Cursor)
  | [] => .error (.inText (if code.1 = 0 then .unclosedQuote else .expectedHex) start m)
  | c :: cs =>
    match code with
    | (left + 1, value) =>
      match Number.digitIn? 16 c with
      | none => .error (.inText .expectedHex start m)
      | some d =>
        let value := 16 * value + d
        if left ≠ 0 then doubleFrom start q (left, value) (m.after c) cs
        else
          match charOf? value with
          | some x => doubleFrom start (q.add x) (0, 0) (m.after c) cs
          | none => .error (.inText .invalidCodePoint start m)
    | (0, _) =>
      if c = '"' then .ok (q.text, ⟨m.after c, cs⟩)
      else if atAnyDocumentMark m (c :: cs) then .error (.inText .documentMarkInQuotes start m)
      else if isBlank c || isBreak c then doubleFrom start (q.addGap c) (0, 0) (m.after c) cs
      else if c ≠ '\\' then doubleFrom start (q.add c) (0, 0) (m.after c) cs
      else
        match cs with
        | [] => .error (.inText .unknownEscape start m)
        | e :: cs =>
          -- An escaped line break joins two lines without a blank.
          if isBreak e then
            doubleFrom start q.addEscapedBreak (0, 0) ((m.after c).after e) cs
          else
            match shortEscape? e, escapeDigits? e with
            | some x, _ => doubleFrom start (q.add x) (0, 0) ((m.after c).after e) cs
            | none, some n => doubleFrom start q (n, 0) ((m.after c).after e) cs
            | none, none => .error (.inText .unknownEscape start m)

def doubleScalar (start : Mark) (c : Cursor) : Except SyntaxError (String × Cursor) :=
  doubleFrom start {} (0, 0) c.mark c.rest

/-! ## Block scalars -/

inductive Chomping where
  | strip | clip | keep
  deriving DecidableEq, Repr, Inhabited

/-- What the first line of a block says: the chomping, and the indentation relative to the block
    around, unless the first line of text decides it. -/
structure BlockHeader where
  chomping : Chomping
  increment : Option Nat
  deriving DecidableEq, Repr, Inhabited

def readChomping (c : Cursor) : Chomping × Cursor :=
  match c.rest with
  | '+' :: _ => (.keep, c.skip 1)
  | '-' :: _ => (.strip, c.skip 1)
  | _ => (.clip, c)

def readIncrement (start : Mark) (c : Cursor) : Except SyntaxError (Option Nat × Cursor) :=
  match c.rest with
  | '0' :: _ => .error (.inText .zeroIndent start c.mark)
  | d :: _ => .ok (if d.isDigit then (some (Number.digitsValue [d]), c.skip 1) else (none, c))
  | [] => .ok (none, c)

def readBlockHeader (start : Mark) (c : Cursor) : Except SyntaxError (BlockHeader × Cursor) := do
  let (before, c) := readChomping c
  let (increment, c) ← readIncrement start c
  -- The sign may stand on either side of the digit, but not on both.
  let (chomping, c) := if before = .clip && increment.isSome then readChomping c else (before, c)
  let c := c.skipWhile isBlank
  let c := if c.rest.head? = some '#' then c.toLineEnd else c
  match c.rest with
  | [] => return (⟨chomping, increment⟩, c)
  | x :: _ =>
    if isBreak x then return (⟨chomping, increment⟩, c.skip 1)
    else .error (.inText .expectedLineEnd start c.mark)

/-- The cursor after the indentation of a line: spaces up to a column, if there is one. -/
def passIndent (column : Option Nat) (c : Cursor) : Cursor :=
  let spaces := (c.rest.takeWhile (· = ' ')).length
  match column with
  | none => c.skip spaces
  | some n => c.skip (min spaces (n - c.mark.column))

/-- Lines that hold no text: the widest indentation seen, their breaks, the last one first, and the
    cursor at the next text. -/
structure EmptyLines where
  widest : Nat
  breaks : List Char
  cursor : Cursor
  deriving Inhabited

/-- Passes lines that hold no text. One step for each character and one more are enough. -/
def passEmptyLines (start : Mark) (column : Option Nat) :
    (fuel : Nat) → (widest : Nat) → (breaks : List Char) → Cursor → Except SyntaxError EmptyLines
  | 0, widest, breaks, c => .ok ⟨widest, breaks, c⟩
  | fuel + 1, widest, breaks, c =>
    let c := passIndent column c
    let widest := max widest c.mark.column
    let inIndent := match column with
      | none => true
      | some n => c.mark.column < n
    match c.rest with
    | [] => .ok ⟨widest, breaks, c⟩
    | x :: _ =>
      if inIndent && x = '\t' then .error (.inText .tabInBlock start c.mark)
      else if isBreak x then passEmptyLines start column fuel widest (x :: breaks) (c.skip 1)
      else .ok ⟨widest, breaks, c⟩

/-- What has been read of a block: its text, the break after its last line, and the breaks after
    that, all of them the last one first; and whether the last line starts with a blank. -/
structure BlockText where
  seen : List Char := []
  lineBreak : Option Char := none
  later : List Char := []
  startsBlank : Bool := false
  deriving Inhabited

namespace BlockText

/-- The text with the breaks before a further line. Folding turns a single line feed between two
    lines without leading blanks into a space. -/
def joined (b : BlockText) (literal blank : Bool) : List Char :=
  let folds := !literal && !b.startsBlank && !blank && b.lineBreak = some '\n'
  let between := if folds then (if b.later.isEmpty then [' '] else []) else b.lineBreak.toList
  b.later ++ between ++ b.seen

def chomped (b : BlockText) : Chomping → String
  | .strip => String.ofList b.seen.reverse
  | .clip => String.ofList (b.lineBreak.toList ++ b.seen).reverse
  | .keep => String.ofList (b.later ++ b.lineBreak.toList ++ b.seen).reverse

end BlockText

/-- Reads the lines of a block that are indented to a column. One step for each character and one more
    are enough. -/
def blockLines (start : Mark) (literal : Bool) (column : Nat) :
    (fuel : Nat) → BlockText → Cursor → Except SyntaxError (BlockText × Cursor)
  | 0, b, c => .ok (b, c)
  | fuel + 1, b, c =>
    match c.rest with
    | [] => .ok (b, c)
    | x :: _ =>
      if c.mark.column ≠ column then .ok (b, c)
      else do
        let (line, after) := c.span fun x => !isBreak x
        let next := after.passBreak
        let gap ← passEmptyLines start (some column) (next.rest.length + 1) 0 [] next
        let b := {
          seen := line.reverse ++ b.joined literal (isBlank x)
          lineBreak := after.rest.head?
          later := gap.breaks
          startsBlank := isBlank x }
        blockLines start literal column fuel b gap.cursor

def blockScalar (start : Mark) (literal : Bool) (indent : Int) (c : Cursor) :
    Except SyntaxError (String × Cursor) := do
  let (header, c) ← readBlockHeader start c
  let given := header.increment.map fun n => (max indent 0).toNat + n
  let gap ← passEmptyLines start given (c.rest.length + 1) 0 [] c
  -- Without a digit the widest of the empty lines and the first text decide.
  let column := given.getD (max gap.widest (max (indent + 1).toNat 1))
  let b : BlockText := { later := gap.breaks }
  let (b, c) ← blockLines start literal column (gap.cursor.rest.length + 1) b gap.cursor
  return (b.chomped header.chomping, c)

end KestrelLang.Yaml
