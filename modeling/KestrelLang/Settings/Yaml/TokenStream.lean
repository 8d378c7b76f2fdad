import KestrelLang.Settings.Yaml.Property

/-! # The tokens of a YAML text

* `Yaml.PendingKey` — a token that may turn out to start a key.
* `Yaml.Scan` — the tokens so far and what decides about the next one.
* `Yaml.Scan.fetch` — one more token; indentation and colons add tokens of their own.
* `Yaml.TokenStream` — all tokens of a text, or those before an error; `TokenStream.get` is a token as
  a reader sees it that looks two tokens ahead, and further where a token may start a key. -/

namespace KestrelLang.Yaml

/-! ## State -/

/-- A token that may turn out to start a key. A required one is an error without its colon. -/
structure PendingKey where
  number : Nat
  required : Bool
  mark : Mark
  deriving DecidableEq, Repr, Inhabited

/-- The state between two tokens. Of the indentations and the pending keys, the innermost is apart from
    the outer ones. An indentation of minus one is that of no block. -/
structure Scan where
  cursor : Cursor
  tokens : Array Token := #[]
  indent : Int := -1
  outerIndents : List Int := []
  key : Option PendingKey := none
  outerKeys : List (Option PendingKey) := []
  keyAllowed : Bool := true
  deriving Inhabited

namespace Scan

def mark (s : Scan) : Mark := s.cursor.mark

def inFlow (s : Scan) : Bool := !s.outerKeys.isEmpty

def push (s : Scan) (kind : TokenKind) (start stop : Mark) : Scan :=
  { s with tokens := s.tokens.push ⟨kind, start, stop⟩ }

def take (s : Scan) (n : Nat) (kind : TokenKind) : Scan :=
  let after := s.cursor.skip n
  { s.push kind s.mark after.mark with cursor := after }

def takeTo (s : Scan) (kind : TokenKind) (after : Cursor) : Scan :=
  { s.push kind s.mark after.mark with cursor := after }

/-! ## Keys -/

/-- A key stands on one line and is not longer than 1024 characters. -/
def isLive (s : Scan) (k : PendingKey) : Bool :=
  s.mark.line ≤ k.mark.line && s.mark.index ≤ k.mark.index + 1024

def missingColon (s : Scan) (k : PendingKey) : SyntaxError := .inText .missingColon k.mark s.mark

def dropKey (s : Scan) : Except SyntaxError Scan :=
  match s.key with
  | some k => if k.required then .error (s.missingColon k) else .ok { s with key := none }
  | none => .ok s

def saveKey (s : Scan) : Except SyntaxError Scan := do
  if !s.keyAllowed then return s
  let required := !s.inFlow && s.indent = s.mark.column
  return { ← s.dropKey with key := some ⟨s.tokens.size, required, s.mark⟩ }

/-! ## Indentation -/

def maxDepth : Nat := 10000

/-- Starts a block that is indented more than the one around it. Its first token comes before the
    token with the given number. -/
def roll (s : Scan) (column number : Nat) (kind : TokenKind) (mark : Mark) :
    Except SyntaxError Scan :=
  if s.inFlow || (column : Int) ≤ s.indent then .ok s
  else if maxDepth ≤ s.outerIndents.length then .error (.inText .tooDeep s.mark s.mark)
  else
    .ok { s with
      indent := column
      outerIndents := s.indent :: s.outerIndents
      tokens := s.tokens.insertIdxIfInBounds number ⟨kind, mark, mark⟩ }

def endBlocks (column : Int) (mark : Mark) (indent : Int) (tokens : Array Token) :
    List Int → Int × List Int × Array Token
  | [] => (indent, [], tokens)
  | outer :: rest =>
    if indent ≤ column then (indent, outer :: rest, tokens)
    else endBlocks column mark outer (tokens.push ⟨.blockEnd, mark, mark⟩) rest

/-- Ends the blocks that are indented more than a column, unless brackets are open. -/
def unroll (s : Scan) (column : Int) (mark : Mark) : Scan :=
  if s.inFlow then s
  else
    let (indent, outer, tokens) := endBlocks column mark s.indent s.tokens s.outerIndents
    { s with indent := indent, outerIndents := outer, tokens := tokens }

end Scan

/-! ## Gaps and comments -/

inductive GapMode where
  | blanks
  | comment
  /-- A gap between two comments. -/
  | toComment
  deriving DecidableEq, Repr, Inhabited

def leadsToComment (cs : List Char) : Bool :=
  (cs.dropWhile fun c => isBlank c || c = '\n').head? = some '#'

/-- Passes blanks, comments and line breaks up to the next token. Outside brackets, a line break makes
    a key possible, and where a key is possible a tab is no blank. The result says whether a key is
    possible. -/
def passGap (inFlow : Bool) (mode : GapMode) (keyAllowed : Bool) (m : Mark) :
    List Char → Bool × Cursor
  | [] => (keyAllowed, ⟨m, []⟩)
  | c :: cs =>
    match mode with
    | .toComment =>
      passGap inFlow (if c = '#' then .comment else .toComment) keyAllowed (m.after c) cs
    | .comment =>
      if !isBreak c then passGap inFlow .comment keyAllowed (m.after c) cs
      else if leadsToComment cs then passGap inFlow .toComment keyAllowed (m.after c) cs
      else passGap inFlow .blanks (keyAllowed || !inFlow) (m.after c) cs
    | .blanks =>
      if c = ' ' || (c = '\t' && (inFlow || !keyAllowed)) then
        passGap inFlow .blanks keyAllowed (m.after c) cs
      else if c = '#' then passGap inFlow .comment keyAllowed (m.after c) cs
      else if isBreak c then passGap inFlow .blanks (keyAllowed || !inFlow) (m.after c) cs
      else (keyAllowed, ⟨m, c :: cs⟩)

def Cursor.passLineComment (c : Cursor) : Cursor :=
  let after := c.skipWhile isBlank
  if !c.mark.fresh && after.rest.head? = some '#' then after.toLineEnd else c

namespace Scan

/-! ## Tokens -/

def fetchEnd (s : Scan) : Except SyntaxError Scan := do
  let m := s.mark
  let m := if m.column = 0 then m else ⟨m.index, m.line + 1, 0, m.fresh⟩
  let s ← (({ s with cursor := ⟨m, [] ⟩ } : Scan).unroll (-1) m).dropKey
  return { s with keyAllowed := false }.push .streamEnd m m

def endDocument (s : Scan) : Except SyntaxError Scan := do
  return { ← (s.unroll (-1) s.mark).dropKey with keyAllowed := false }

def fetchDirective (s : Scan) : Except SyntaxError Scan := do
  let s ← s.endDocument
  let (kind, after) ← readDirective s.mark (s.cursor.skip 1)
  return s.takeTo kind after

def fetchDocumentMark (s : Scan) (kind : TokenKind) : Except SyntaxError Scan := do
  return (← s.endDocument).take 3 kind

def fetchFlowStart (s : Scan) (kind : TokenKind) : Except SyntaxError Scan := do
  let s ← s.saveKey
  if maxDepth ≤ s.outerKeys.length then throw (.inText .tooDeep s.mark s.mark)
  return { s with key := none, outerKeys := s.key :: s.outerKeys, keyAllowed := true }.take 1 kind

def fetchFlowEnd (s : Scan) (kind : TokenKind) : Except SyntaxError Scan := do
  -- The key that was pending around the brackets is pending again.
  let s ← s.dropKey
  let s := match s.outerKeys with
    | key :: outer => { s with key := key, outerKeys := outer }
    | [] => s
  return { s with keyAllowed := false }.take 1 kind

def fetchFlowEntry (s : Scan) : Except SyntaxError Scan := do
  return { ← s.dropKey with keyAllowed := true }.take 1 .flowEntry

/-- The hyphen of an item. Between brackets it is left to the reader of the tokens. -/
def fetchBlockEntry (s : Scan) : Except SyntaxError Scan := do
  if !s.inFlow && !s.keyAllowed then throw (.inText .entryNotAllowed s.mark s.mark)
  let s ← s.roll s.mark.column s.tokens.size .blockSequenceStart s.mark
  return { ← s.dropKey with keyAllowed := true }.take 1 .blockEntry

def fetchKey (s : Scan) : Except SyntaxError Scan := do
  if !s.inFlow && !s.keyAllowed then throw (.inText .keyNotAllowed s.mark s.mark)
  let s ← s.roll s.mark.column s.tokens.size .blockMappingStart s.mark
  return { ← s.dropKey with keyAllowed := !s.inFlow }.take 1 .key

/-- The colon of a value after a key that is pending: the key, and perhaps a mapping, start before
    it. -/
def fetchKeyedValue (s : Scan) (k : PendingKey) : Except SyntaxError Scan := do
  -- The key was read before its colon came, so the token for it goes in front of what was read.
  let keyed := s.tokens.insertIdxIfInBounds k.number ⟨.key, k.mark, k.mark⟩
  let s : Scan := { s with tokens := keyed, key := none, keyAllowed := false }
  return (← s.roll k.mark.column k.number .blockMappingStart k.mark).take 1 .value

/-- The colon of a value without a key on its line. -/
def fetchLoneValue (s : Scan) : Except SyntaxError Scan := do
  if !s.inFlow && !s.keyAllowed then throw (.inText .valueNotAllowed s.mark s.mark)
  let s ← s.roll s.mark.column s.tokens.size .blockMappingStart s.mark
  return { s with keyAllowed := !s.inFlow }.take 1 .value

def fetchValue (s : Scan) : Except SyntaxError Scan :=
  match s.key with
  | none => s.fetchLoneValue
  | some k =>
    if s.isLive k then s.fetchKeyedValue k
    else if k.required then .error (s.missingColon k)
    else fetchLoneValue { s with key := none }

def fetchName (s : Scan) (kind : String → TokenKind) : Except SyntaxError Scan := do
  let s ← s.saveKey
  let (name, after) ← readName s.mark (s.cursor.skip 1)
  return { s with keyAllowed := false }.takeTo (kind name) after

def fetchTag (s : Scan) : Except SyntaxError Scan := do
  let s ← s.saveKey
  let (kind, after) ← readTag s.cursor
  return { s with keyAllowed := false }.takeTo kind after

def fetchBlockScalar (s : Scan) (literal : Bool) : Except SyntaxError Scan := do
  let s ← s.dropKey
  let (text, after) ← blockScalar s.mark literal s.indent (s.cursor.skip 1)
  return { s with keyAllowed := true }.takeTo (.scalar text false) after

def fetchQuoted (s : Scan) (read : Mark → Cursor → Except SyntaxError (String × Cursor)) :
    Except SyntaxError Scan := do
  let s ← s.saveKey
  let (text, after) ← read s.mark (s.cursor.skip 1)
  return { s with keyAllowed := false }.takeTo (.scalar text false) after

/-- A scalar without quotes. A key may follow it on a later line. -/
def fetchPlain (s : Scan) : Except SyntaxError Scan := do
  let s ← s.saveKey
  let p ← plainScalar s.inFlow (s.indent + 1).toNat s.cursor
  return { s with keyAllowed := p.folded }.takeTo (.scalar p.text true) p.cursor

/-- A character that starts something else than a plain scalar. -/
def isIndicator (c : Char) : Bool := "-?:,[]\x7b\x7d#&*!|>'\"%@`".toList.contains c

def startsPlain (s : Scan) (c : Char) (cs : List Char) : Bool :=
  !(isBlank c || isBreak c || isIndicator c)
    || (c = '-' && !(cs.head?.any isBlank))
    || (!s.inFlow && (c = '?' || c = ':') && !endsWord cs)

def fetchInner (s : Scan) (c : Char) (cs : List Char) : Except SyntaxError Scan :=
  match c with
  | '[' => s.fetchFlowStart .flowSequenceStart
  | '\x7b' => s.fetchFlowStart .flowMappingStart
  | ']' => s.fetchFlowEnd .flowSequenceEnd
  | '\x7d' => s.fetchFlowEnd .flowMappingEnd
  | ',' => s.fetchFlowEntry
  | '*' => s.fetchName .alias
  | '&' => s.fetchName .anchor
  | '!' => s.fetchTag
  | '\'' => s.fetchQuoted singleScalar
  | '"' => s.fetchQuoted doubleScalar
  | _ =>
    if c = '-' && endsWord cs then s.fetchBlockEntry
    else if c = '?' && (s.inFlow || endsWord cs) then s.fetchKey
    else if c = ':' && (s.inFlow || endsWord cs) then s.fetchValue
    else if (c = '|' || c = '>') && !s.inFlow then s.fetchBlockScalar (c = '|')
    else if s.startsPlain c cs then s.fetchPlain
    else .error (.inText .cannotStart s.mark s.mark)

/-- Passes a comment on the line of a token. The hyphen of an item leaves it to what follows. -/
def passLineComment (s : Scan) : Scan :=
  match s.tokens.back? with
  | some ⟨.blockEntry, _, _⟩ => s
  | _ => { s with cursor := s.cursor.passLineComment }

def fetch (s : Scan) : Except SyntaxError Scan := do
  if s.tokens.isEmpty then return s.push .streamStart s.mark s.mark
  let (keyAllowed, cursor) := passGap s.inFlow .blanks s.keyAllowed s.mark s.cursor.rest
  let s := ({ s with cursor := cursor, keyAllowed := keyAllowed } : Scan).unroll
    cursor.mark.column s.mark
  match cursor.rest with
  | [] => s.fetchEnd
  | c :: cs =>
    if cursor.mark.column = 0 && c = '%' then s.fetchDirective
    else if cursor.atDocumentMark '-' then s.fetchDocumentMark .documentStart
    else if cursor.atDocumentMark '.' then s.fetchDocumentMark .documentEnd
    else return (← s.fetchInner c cs).passLineComment

def isDone (s : Scan) : Bool :=
  match s.tokens.back? with
  | some ⟨.streamEnd, _, _⟩ => true
  | _ => false

end Scan

/-! ## Streams -/

/-- The tokens of a text. If an error stopped the scan, they are those before it, with the state in
    which it came up. -/
structure TokenStream where
  tokens : Array Token
  stopped : Option (SyntaxError × Scan)
  deriving Inhabited

namespace TokenStream

def fetchAll : (fuel : Nat) → Scan → TokenStream
  | 0, s => ⟨s.tokens, none⟩
  | fuel + 1, s =>
    if s.isDone then ⟨s.tokens, none⟩
    else
      match s.fetch with
      | .ok next => fetchAll fuel next
      | .error e => ⟨s.tokens, some (e, s)⟩

/-- The tokens of a text. All tokens but the first and the last take characters. -/
def ofText (cs : List Char) : TokenStream :=
  fetchAll (cs.length + 3) { cursor := .ofText cs }

def pendingAt? (s : Scan) (i : Nat) : Option PendingKey :=
  (s.key :: s.outerKeys).findSome? fun k => k.filter fun k => k.number = i

/-- A token as seen by a reader. A token is not seen while fewer than two others follow it, nor while
    it may start a key; so an error may hide the tokens before it. After the last token the end of the
    text comes again and again. -/
def get (t : TokenStream) (i : Nat) : Except SyntaxError Token :=
  match t.stopped, t.tokens[i]? with
  | none, some token => .ok token
  | none, none => .ok ((t.tokens.back?).getD ⟨.streamEnd, {}, {}⟩)
  | some (e, _), none => .error e
  | some (e, s), some token =>
    if t.tokens.size ≤ i + 2 then .error e
    else
      match pendingAt? s i with
      | none => .ok token
      | some k =>
        if s.isLive k then .error e
        else if k.required then .error (s.missingColon k)
        else .ok token

end TokenStream

end KestrelLang.Yaml
