import KestrelLang.Settings.Yaml.Node
import KestrelLang.Settings.Yaml.TokenStream

/-! # Documents from tokens

* `Yaml.Build` — reading of tokens one after the other, with the anchors and handles so far.
* `Yaml.readNode` — the node at the next token.
* `Yaml.readDocument` — the first document of a token stream.
* `Yaml.read` — the first document of a text; a text without content has none. -/

namespace KestrelLang.Yaml

/-! ## State -/

/-- What is known between two tokens: the number of the next one, what the handles of tags stand for,
    the anchors, the last one first, and the nodes that have one. -/
structure Builder where
  next : Nat := 0
  handles : List (String × String) := []
  anchors : List (String × Nat) := []
  anchored : Array Node := #[]
  deriving Inhabited

abbrev Build (α : Type) := StateT Builder (Except SyntaxError) α

def peekToken (t : TokenStream) : Build Token := do
  match t.get (← get).next with
  | .ok token => return token
  | .error e => throw e

def passToken : Build Unit := modify fun b => { b with next := b.next + 1 }

def passAndPeek (t : TokenStream) : Build Token := do
  passToken
  peekToken t

/-! ## Anchors and tags -/

/-- Keeps a place for a node that has an anchor. An alias within the node already finds it. -/
def openAnchor (name : Option String) : Build (Option Nat) := do
  match name with
  | none => return none
  | some name =>
    let i := (← get).anchored.size
    modify fun b => { b with
      anchors := (name, i) :: b.anchors
      anchored := b.anchored.push (.null 0) }
    return some i

def closeAnchor (slot : Option Nat) (node : Node) : Build Node := do
  match slot with
  | none => return node
  | some i =>
    modify fun b => { b with anchored := b.anchored.setIfInBounds i node }
    return node

def readAlias (token : Token) (name : String) : Build Node := do
  let b ← get
  match b.anchors.lookup name with
  | none => throw ⟨.unknownAnchor name, 0⟩
  | some target =>
    passToken
    return .alias (token.start.line + 1) name b.next target

/-- What stands before the content of a node: where it starts, an anchor, and a tag with its place. -/
structure Properties where
  start : Mark
  anchor : Option String := none
  tag : Option (String × String × Mark) := none
  deriving Inhabited

/-- An anchor and a tag in any order, each at most once. -/
def readProperties (t : TokenStream) : Build Properties := do
  let token ← peekToken t
  match token.kind with
  | .anchor name =>
    let next ← passAndPeek t
    match next.kind with
    | .tag handle suffix =>
      passToken
      return ⟨token.start, some name, some (handle, suffix, next.start)⟩
    | _ => return ⟨token.start, some name, none⟩
  | .tag handle suffix =>
    let next ← passAndPeek t
    match next.kind with
    | .anchor name =>
      passToken
      return ⟨token.start, some name, some (handle, suffix, token.start)⟩
    | _ => return ⟨token.start, none, some (handle, suffix, token.start)⟩
  | _ => return ⟨token.start, none, none⟩

def usualTagStart : String := "tag:yaml.org,2002:"

def shortTag (tag : String) : String :=
  if tag.startsWith usualTagStart then
    "!!" ++ String.ofList (tag.toList.drop usualTagStart.length)
  else tag

/-- The whole tag of a node, empty if none is given. -/
def wholeTag (p : Properties) : Build String := do
  match p.tag with
  | none => return ""
  -- A tag without a handle is written out.
  | some ("", suffix, _) => return suffix
  | some (handle, suffix, mark) =>
    match (← get).handles.lookup handle with
    | some expansion => return expansion ++ suffix
    | none => throw (.inShape .undefinedHandle p.start mark)

/-- A tag in its short form, or the implied one where none is given. A mark by itself gives none. -/
def tagOr (tag implied : String) : String := if tag = "" || tag = "!" then implied else shortTag tag

def impliedTag (text : String) (plain : Bool) : String :=
  if !plain then "!!str"
  else if text = "<<" then "!!merge"
  else (plainMeaning text).tag

/-! ## Nodes -/

def emptyNode (m : Mark) : Node := .null (m.line + 1)

/-- The tokens after which an entry of a block has no node of its own. -/
def endsBlockEntry : TokenKind → Bool
  | .key | .value | .blockEnd => true
  | _ => false

/-- The tokens after which an item of a sequence without indentation is empty. -/
def endsIndentlessItem : TokenKind → Bool
  | .blockEntry | .key | .value | .blockEnd => true
  | _ => false

mutual

/-- The node at the next token. `block` says that it may be a block, and `indentless` that it may be a
    sequence that is indented like its key. Every call takes fuel; four for each token are enough. -/
def readNode (t : TokenStream) : (fuel : Nat) → (block indentless : Bool) → Build Node
  | 0, _, _ => throw ⟨.expectedContent, 0⟩
  | fuel + 1, block, indentless => do
    let first ← peekToken t
    -- An alias has no properties of its own.
    if let .alias name := first.kind then return ← readAlias first name
    let p ← readProperties t
    let token ← peekToken t
    let tag ← wholeTag p
    let line := p.start.line + 1
    match token.kind, block, indentless with
    -- The hyphen is not passed here: each item takes its own.
    | .blockEntry, _, true =>
      let slot ← openAnchor p.anchor
      closeAnchor slot (.sequence line (tagOr tag "!!seq") (← readIndentless t fuel))
    | .scalar text plain, _, _ =>
      passToken
      let slot ← openAnchor p.anchor
      closeAnchor slot (.scalar line (tagOr tag (impliedTag text plain)) text)
    | .flowSequenceStart, _, _ =>
      passToken
      let slot ← openAnchor p.anchor
      closeAnchor slot (.sequence line (tagOr tag "!!seq") (← readFlowItems t fuel token.start true))
    | .flowMappingStart, _, _ =>
      passToken
      let slot ← openAnchor p.anchor
      closeAnchor slot (.mapping line (tagOr tag "!!map") (← readFlowFields t fuel token.start true))
    | .blockSequenceStart, true, _ =>
      passToken
      let slot ← openAnchor p.anchor
      closeAnchor slot (.sequence line (tagOr tag "!!seq") (← readBlockItems t fuel token.start))
    | .blockMappingStart, true, _ =>
      passToken
      let slot ← openAnchor p.anchor
      closeAnchor slot (.mapping line (tagOr tag "!!map") (← readBlockFields t fuel token.start))
    | _, _, _ =>
      -- Properties alone make an empty node. Without any, a node is missing.
      if p.anchor.isNone && tag = "" then
        throw (.inShape .expectedContent p.start token.start)
      let slot ← openAnchor p.anchor
      closeAnchor slot (.scalar line (tagOr tag Meaning.null.tag) "")

def readIndentless (t : TokenStream) : (fuel : Nat) → Build (List Node)
  | 0 => throw ⟨.expectedContent, 0⟩
  | fuel + 1 => do
    let entry ← peekToken t
    if entry.kind ≠ .blockEntry then return []
    let token ← passAndPeek t
    let item ←
      if endsIndentlessItem token.kind then pure (emptyNode entry.stop)
      else readNode t fuel true false
    return item :: (← readIndentless t fuel)

def readBlockItems (t : TokenStream) : (fuel : Nat) → (start : Mark) → Build (List Node)
  | 0, _ => throw ⟨.expectedContent, 0⟩
  | fuel + 1, start => do
    let entry ← peekToken t
    match entry.kind with
    | .blockEnd => passToken; return []
    | .blockEntry =>
      let token ← passAndPeek t
      let item ←
        if token.kind = .blockEntry || token.kind = .blockEnd then pure (emptyNode entry.stop)
        else readNode t fuel true false
      return item :: (← readBlockItems t fuel start)
    | _ => throw (.inShape .expectedEntry start entry.start)

def readBlockFields (t : TokenStream) :
    (fuel : Nat) → (start : Mark) → Build (List (Node × Node))
  | 0, _ => throw ⟨.expectedContent, 0⟩
  | fuel + 1, start => do
    let entry ← peekToken t
    match entry.kind with
    | .blockEnd => passToken; return []
    | .key =>
      let token ← passAndPeek t
      let key ←
        if endsBlockEntry token.kind then pure (emptyNode entry.stop)
        else readNode t fuel true true
      let value ← readBlockValue t fuel
      return (key, value) :: (← readBlockFields t fuel start)
    | _ => throw (.inShape .expectedKey start entry.start)

def readBlockValue (t : TokenStream) : (fuel : Nat) → Build Node
  | 0 => throw ⟨.expectedContent, 0⟩
  | fuel + 1 => do
    let colon ← peekToken t
    if colon.kind ≠ .value then return emptyNode colon.start
    let token ← passAndPeek t
    if endsBlockEntry token.kind then return emptyNode colon.stop
    readNode t fuel true true

/-- The items of a sequence between brackets that starts at a mark. `first` says that no item has been
    read. -/
def readFlowItems (t : TokenStream) :
    (fuel : Nat) → (start : Mark) → (first : Bool) → Build (List Node)
  | 0, _, _ => throw ⟨.expectedContent, 0⟩
  | fuel + 1, start, first => do
    let mut token ← peekToken t
    if token.kind = .flowSequenceEnd then
      passToken
      return []
    if !first then
      if token.kind ≠ .flowEntry then throw (.inShape .expectedItemEnd start token.start)
      token ← passAndPeek t
    -- A comma may stand in front of the closing bracket.
    match token.kind with
    | .flowSequenceEnd => passToken; return []
    | .key =>
      passToken
      -- A single pair is an item of its own, as a mapping without braces.
      let pair ← readFlowPair t fuel
      let item := Node.mapping (token.start.line + 1) "!!map" [pair]
      return item :: (← readFlowItems t fuel start false)
    | _ =>
      let item ← readNode t fuel false false
      return item :: (← readFlowItems t fuel start false)

def readFlowPair (t : TokenStream) : (fuel : Nat) → Build (Node × Node)
  | 0 => throw ⟨.expectedContent, 0⟩
  | fuel + 1 => do
    let ends := fun k : TokenKind => k = .flowEntry || k = .flowSequenceEnd
    let token ← peekToken t
    let key ←
      if token.kind = .value || ends token.kind then
        passToken
        pure (emptyNode token.stop)
      else readNode t fuel false false
    let colon ← peekToken t
    if colon.kind ≠ .value then return (key, emptyNode colon.start)
    let token ← passAndPeek t
    if ends token.kind then return (key, emptyNode token.start)
    return (key, ← readNode t fuel false false)

/-- The entries of a mapping between braces that starts at a mark. `first` says that no entry has been
    read. -/
def readFlowFields (t : TokenStream) :
    (fuel : Nat) → (start : Mark) → (first : Bool) → Build (List (Node × Node))
  | 0, _, _ => throw ⟨.expectedContent, 0⟩
  | fuel + 1, start, first => do
    let mut token ← peekToken t
    if token.kind = .flowMappingEnd then
      passToken
      return []
    if !first then
      if token.kind ≠ .flowEntry then throw (.inShape .expectedFieldEnd start token.start)
      token ← passAndPeek t
    match token.kind with
    | .flowMappingEnd => passToken; return []
    | .key =>
      let field ← readFlowField t fuel
      return field :: (← readFlowFields t fuel start false)
    | _ =>
      let key ← readNode t fuel false false
      let after ← peekToken t
      return (key, emptyNode after.start) :: (← readFlowFields t fuel start false)

def readFlowField (t : TokenStream) : (fuel : Nat) → Build (Node × Node)
  | 0 => throw ⟨.expectedContent, 0⟩
  | fuel + 1 => do
    let ends := fun k : TokenKind => k = .flowEntry || k = .flowMappingEnd
    let token ← passAndPeek t
    let key ←
      if token.kind = .value || ends token.kind then pure (emptyNode token.start)
      else readNode t fuel false false
    let colon ← peekToken t
    if colon.kind ≠ .value then return (key, emptyNode colon.start)
    let token ← passAndPeek t
    if ends token.kind then return (key, emptyNode token.start)
    return (key, ← readNode t fuel false false)

end

/-! ## Documents -/

def usualHandles : List (String × String) := [("!", "!"), ("!!", usualTagStart)]

def readDirectives (t : TokenStream) : (fuel : Nat) → (versioned : Bool) → Build Unit
  | 0, _ => throw ⟨.expectedDocumentStart, 0⟩
  | fuel + 1, versioned => do
    let token ← peekToken t
    match token.kind with
    | .versionDirective major minor =>
      if versioned then throw (.inShape .repeatedVersion {} token.start)
      if major ≠ 1 || minor ≠ 1 then throw (.inShape .incompatibleVersion {} token.start)
      passToken
      readDirectives t fuel true
    | .tagDirective handle expansion =>
      if ((← get).handles.lookup handle).isSome then
        throw (.inShape .repeatedHandle {} token.start)
      modify fun b => { b with handles := (handle, expansion) :: b.handles }
      passToken
      readDirectives t fuel versioned
    | _ => modify fun b => { b with handles := b.handles ++ usualHandles }

/-- The tokens before which a document that has been started is empty. -/
def endsDocument : TokenKind → Bool
  | .versionDirective .. | .tagDirective .. | .documentStart | .documentEnd | .streamEnd => true
  | _ => false

/-- The root of the first document, if there is one. -/
def readRoot (t : TokenStream) (fuel : Nat) : Build (Option Node) := do
  discard (peekToken t)
  let token ← passAndPeek t
  match token.kind with
  | .streamEnd => return none
  | .versionDirective .. | .tagDirective .. | .documentStart =>
    readDirectives t fuel false
    let start ← peekToken t
    if start.kind ≠ .documentStart then
      throw (.inShape .expectedDocumentStart {} start.start)
    let token ← passAndPeek t
    if endsDocument token.kind then return some (emptyNode token.start)
    return some (← readNode t fuel true false)
  | _ =>
    modify fun b => { b with handles := usualHandles }
    return some (← readNode t fuel true false)

def readDocument (t : TokenStream) : Except SyntaxError (Option Document) := do
  let fuel := 4 * t.tokens.size + 4
  let (root, b) ← ((readRoot t fuel).run {} : Except SyntaxError (Option Node × Builder))
  match root with
  | none => return none
  | some root =>
    discard (t.get b.next)
    return some ⟨root, b.anchored, t.tokens.size⟩

def byteOrderMark : Char := '\ufeff'

def withoutMark : List Char → List Char
  | c :: cs => if c = byteOrderMark then cs else c :: cs
  | [] => []

/-- The first document of a text, if it has content. -/
def read (text : String) : Except SyntaxError (Option Document) :=
  let cs := withoutMark text.toList
  if !cs.all isAllowed then .error ⟨.controlCharacter, 0⟩
  else readDocument (.ofText (unified cs))

end KestrelLang.Yaml
