import KestrelLang.Settings.Yaml.Scalar
import KestrelLang.Settings.Yaml.Token
import KestrelLang.Text.Utf8

/-! # Names, tags and directives of YAML

* `Yaml.readName` — the name of an anchor or an alias, after its mark.
* `Yaml.readTag` — a tag, from its mark on.
* `Yaml.readDirective` — a line for the reader of a document, after its percent sign. -/

namespace KestrelLang.Yaml

/-! ## Names -/

def mayFollowName : List Char := "?:,]\x7d%@`".toList

def readName (start : Mark) (c : Cursor) : Except SyntaxError (String × Cursor) :=
  let (name, c) := c.span isWordChar
  let ends := endsWord c.rest || (c.rest.head?.any fun x => mayFollowName.contains x)
  if name.isEmpty || !ends then .error (.inText .expectedName start c.mark)
  else .ok (String.ofList name, c)

/-! ## Tags -/

/-- The handle of a tag: an exclamation mark, a name, and a second mark if there is one. -/
def readHandle (start : Mark) (inDirective : Bool) (c : Cursor) :
    Except SyntaxError (List Char × Cursor) :=
  match c.rest with
  | '!' :: _ =>
    let (name, c) := (c.skip 1).span isWordChar
    match c.rest with
    | '!' :: _ => .ok ('!' :: name ++ ['!'], c.skip 1)
    | _ =>
      if inDirective && !name.isEmpty then .error (.inText .expectedTagMark start c.mark)
      else .ok ('!' :: name, c)
  | _ => .error (.inText .expectedTagMark start c.mark)

def isTagChar (c : Char) : Bool := isWordChar c || ";/?:@&=+$.,!~*'()[]".toList.contains c

/-- The number of octets of a character, by its first one; zero if it can start none. -/
def octetsOf (first : Nat) : Nat :=
  if first < 0x80 then 1 else if first < 0xc0 then 0 else if first < 0xe0 then 2
  else if first < 0xf0 then 3 else if first < 0xf8 then 4 else 0

/-- Reads the text of a tag as octets, the last one first. `left` is the number of escaped octets that
    the character at hand still needs. -/
def tagTextFrom (start : Mark) (left : Nat) (seen : List UInt8) (m : Mark) :
    List Char → Except SyntaxError (List UInt8 × Cursor)
  | '%' :: a :: b :: cs =>
    match Number.digitIn? 16 a, Number.digitIn? 16 b with
    | some x, some y =>
      let octet := 16 * x + y
      let next := m.afterAll ['%', a, b]
      if left = 0 then
        match octetsOf octet with
        | 0 => .error (.inText .badLeadingOctet start m)
        | n + 1 => tagTextFrom start n (UInt8.ofNat octet :: seen) next cs
      else if octet / 0x40 = 2 then
        tagTextFrom start (left - 1) (UInt8.ofNat octet :: seen) next cs
      else .error (.inText .badTrailingOctet start m)
    | _, _ => .error (.inText .expectedOctet start m)
  | c :: cs =>
    if c = '%' || left ≠ 0 then .error (.inText .expectedOctet start m)
    else if isTagChar c then tagTextFrom start 0 (UInt8.ofNat c.toNat :: seen) (m.after c) cs
    else .ok (seen, ⟨m, c :: cs⟩)
  | [] => if left = 0 then .ok (seen, ⟨m, []⟩) else .error (.inText .expectedOctet start m)

def readTagText (start : Mark) (c : Cursor) : Except SyntaxError (String × Cursor) := do
  let (octets, after) ← tagTextFrom start 0 [] c.mark c.rest
  if octets.isEmpty then .error (.inText .expectedTagText start after.mark)
  else return (String.ofList (Text.decodeUtf8 octets.reverse), after)

def readWholeTag (start : Mark) (c : Cursor) : Except SyntaxError (TokenKind × Cursor) := do
  let (text, c) ← readTagText start c
  match c.rest with
  | '>' :: _ => return (.tag "" text, c.skip 1)
  | _ => .error (.inText .expectedTagClose start c.mark)

/-- A tag with a handle. A name without a second mark belongs to the text after the shortest handle,
    and a mark by itself is a tag of its own. -/
def readShortTag (start : Mark) (c : Cursor) : Except SyntaxError (TokenKind × Cursor) := do
  let (handle, c) ← readHandle start false c
  if 1 < handle.length && handle.getLast? = some '!' then
    let (text, c) ← readTagText start c
    return (.tag (String.ofList handle) text, c)
  else
    let (octets, c) ← tagTextFrom start 0 [] c.mark c.rest
    let text := String.ofList (handle.drop 1 ++ Text.decodeUtf8 octets.reverse)
    return (if text = "" then .tag "" "!" else .tag "!" text, c)

def readTag (c : Cursor) : Except SyntaxError (TokenKind × Cursor) := do
  let start := c.mark
  let (tag, c) ← match c.rest with
    | '!' :: '<' :: _ => readWholeTag start (c.skip 2)
    | _ => readShortTag start c
  if endsWord c.rest then return (tag, c)
  else .error (.inText .expectedWordEnd start c.mark)

/-! ## Directives -/

def readVersionPart (start : Mark) (c : Cursor) : Except SyntaxError (Nat × Cursor) :=
  let (digits, after) := c.span Char.isDigit
  if digits.isEmpty then .error (.inText .expectedVersion start c.mark)
  else if 2 < digits.length then .error (.inText .longVersion start c.mark)
  else .ok (Number.digitsValue digits, after)

def readVersion (start : Mark) (c : Cursor) : Except SyntaxError (TokenKind × Cursor) := do
  let (major, c) ← readVersionPart start (c.skipWhile isBlank)
  match c.rest with
  | '.' :: _ =>
    let (minor, c) ← readVersionPart start (c.skip 1)
    return (.versionDirective major minor, c)
  | _ => .error (.inText .expectedVersionPoint start c.mark)

def readHandleDirective (start : Mark) (c : Cursor) : Except SyntaxError (TokenKind × Cursor) := do
  let (handle, c) ← readHandle start true (c.skipWhile isBlank)
  if !(c.rest.head?.any isBlank) then .error (.inText .expectedBlank start c.mark)
  else
    let (text, c) ← readTagText start (c.skipWhile isBlank)
    if endsWord c.rest then return (.tagDirective (String.ofList handle) text, c)
    else .error (.inText .expectedWordEnd start c.mark)

def readDirectiveName (start : Mark) (c : Cursor) : Except SyntaxError (String × Cursor) :=
  let (name, c) := c.span isWordChar
  if name.isEmpty then .error (.inText .expectedDirectiveName start c.mark)
  else if !endsWord c.rest then .error (.inText .badDirectiveName start c.mark)
  else .ok (String.ofList name, c)

def readDirective (start : Mark) (c : Cursor) : Except SyntaxError (TokenKind × Cursor) := do
  let (name, c) ← readDirectiveName start c
  let (directive, c) ← match name with
    | "YAML" => readVersion start c
    | "TAG" => readHandleDirective start c
    | _ => .error (.inText .unknownDirective start c.mark)
  let c := c.skipWhile isBlank
  let c := if c.rest.head? = some '#' then c.toLineEnd else c
  match c.rest with
  | [] => return (directive, c)
  | x :: _ =>
    if isBreak x then return (directive, c.skip 1)
    else .error (.inText .expectedLineEnd start c.mark)

end KestrelLang.Yaml
