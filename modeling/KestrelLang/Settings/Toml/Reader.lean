import KestrelLang.Settings.Toml.Grammar
import KestrelLang.Number.Prefixed

/-! # Reading TOML

* `Toml.Value`, `Toml.Key`, `Toml.KeyValue`, `Toml.Statement` — what stands in a text, in its order.
* `Toml.unquoted` — the text that a string between double quotes stands for.
* `Toml.value`, `Toml.keyValue`, `Toml.expression` — the rules for values and lines.
* `Toml.statements` — the statements of a text, or the line up to which it can be read. -/

namespace KestrelLang.Toml

open Grammar

/-! ## What is written -/

/-- A key with its line. A key between quotes with a wrong escape has no name. -/
structure Key where
  name : Option String
  line : Nat
  deriving DecidableEq, Repr, Inhabited

/-- A value. Numbers, dates and times keep the text they are written with. -/
inductive Value where
  | int (digits : String)
  | float (digits : String)
  /-- A string with the line of its end. One with a wrong escape has no text. -/
  | text (value : Option String) (line : Nat)
  | flag (value : Bool)
  | moment (text : String)
  | array (items : List Value)
  /-- A table between braces with the line of its start; every entry has the line of its end. -/
  | table (line : Nat) (entries : List (Key × Value × Nat))
  deriving Inhabited

abbrev KeyValue := Key × Value × Nat

inductive Statement where
  /-- The name of a table, or of one more table of an array. `name` is its text as it stands. -/
  | header (isArray : Bool) (path : List Key) (name : String) (line : Nat)
  | entry (keyValue : KeyValue)
  deriving Inhabited

/-! ## Strings -/

def escapeOf? : Char → Option Char
  | 'b' => some '\x08'
  | 't' => some '\t'
  | 'n' => some '\n'
  | 'f' => some '\x0c'
  | 'r' => some '\r'
  | '"' => some '"'
  | '\\' => some '\\'
  | _ => none

def codePoint? (digits : List Char) : Option Char :=
  let n := Number.valueIn 16 digits
  if n.isValidChar then some (Char.ofNat n) else none

/-- The text that the inside of a string stands for. A slash may not be escaped, although the grammar
    lets it pass. -/
def unquoted : List Char → Option (List Char)
  | [] => some []
  | '\\' :: 'u' :: a :: b :: c :: d :: cs => do
    return (← codePoint? [a, b, c, d]) :: (← unquoted cs)
  | '\\' :: 'U' :: a :: b :: c :: d :: e :: f :: g :: h :: cs => do
    return (← codePoint? [a, b, c, d, e, f, g, h]) :: (← unquoted cs)
  | '\\' :: c :: cs => do return (← escapeOf? c) :: (← unquoted cs)
  | c :: cs => do return c :: (← unquoted cs)

def stringOf (inside : List Char) : Option String := (unquoted inside).map String.ofList

/-! ## Gaps -/

def isLineEnd (c : Char) : Bool := c = '\r' || c = '\n'

def isTextChar (c : Char) : Bool := c = '\t' || ' ' ≤ c

def blanks : Grammar Unit := rule <| discard (span fun c => c = ' ' || c = '\t')

def anyBlanks : Grammar Unit := rule <| discard (span fun c => c = ' ' || c = '\t' || isLineEnd c)

def lineEnds : Grammar (List Char) := rule <| do
  let first ← char isLineEnd
  return first :: (← span isLineEnd)

def comment : Grammar Unit := rule <| do
  word "#"
  discard (span isTextChar)

/-! ## Characters of strings -/

def hexDigit : Grammar Char := rule <| char fun c => (Number.digitIn? 16 c).isSome

def fourHexDigits : Grammar Unit := rule <| do
  discard hexDigit; discard hexDigit; discard hexDigit; discard hexDigit

def backslash : Grammar Unit := rule <| word "\\"

def escape : Grammar Unit := rule <| do
  backslash
  discard (char fun c => "btnfr\"/\\".toList.contains c)
    <|> (do word "u"; fourHexDigits)
    <|> (do word "U"; fourHexDigits; fourHexDigits)

def basicChar : Grammar Unit := rule <|
  rule (discard (char fun c => ' ' ≤ c && c ≠ '"' && c ≠ '\\')) <|> escape

def literalChar : Grammar Unit := rule <| discard (char fun c => isTextChar c && c ≠ '\'')

def basicInside : Grammar String := do
  word "\""
  let inside ← captured (many basicChar)
  word "\""
  return inside

/-- A part of a text between three double quotes; an escaped line end stands for nothing. -/
def basicPart : Grammar String :=
  captured (basicChar <|> discard lineEnds)
    <|> (do backslash; discard lineEnds; anyBlanks; return "")

/-- A part of a text between three single quotes, which end it. -/
def literalPart : Grammar Unit := do
  if "'''".toList.isPrefixOf (← get).rest then failure
  rule (discard (char isTextChar)) <|> discard lineEnds

def withoutFirstBreaks (s : String) : List Char := s.toList.dropWhile isLineEnd

def string : Grammar (Option String) := rule <|
  rule (do
    word "'''"
    let inside ← captured (rule (many literalPart))
    word "'''"
    return some (String.ofList (withoutFirstBreaks inside)))
  <|> rule (do
    word "'"
    let inside ← captured (many literalChar)
    word "'"
    return some inside)
  <|> rule (do
    word "\"\"\""
    let parts ← rule (many basicPart)
    word "\"\"\""
    return stringOf (withoutFirstBreaks (String.join parts)))
  <|> rule (do return stringOf (← basicInside).toList)

/-! ## Numbers, dates and times -/

def digit : Grammar Unit := rule <| discard (char Char.isDigit)

/-- Digits after a first one; an underscore may stand before each. -/
def laterDigit : Grammar Unit := digit <|> (do word "_"; digit)

def sign : Grammar Unit := discard (optional (char fun c => c = '-' || c = '+'))

def integer : Grammar Unit := rule <| do
  sign
  rule ((do discard (char fun c => '1' ≤ c && c ≤ '9'); discard (several laterDigit)) <|> digit)

def fraction : Grammar Unit := rule <| do word "."; digit; discard (many laterDigit)

def exponent : Grammar Unit := rule <| do
  discard (char fun c => c = 'e' || c = 'E'); sign; digit; discard (many laterDigit)

def float : Grammar Unit := rule <| do
  integer
  (do fraction; discard (optional exponent)) <|> (do discard (optional fraction); exponent)

def digitsOf (s : String) : String := String.ofList (s.toList.filter (· ≠ '_'))

def twoDigits : Grammar Unit := rule <| do digit; digit

def day : Grammar Unit := rule <| do
  rule (do twoDigits; twoDigits)
  word "-"; twoDigits; word "-"; twoDigits

def time : Grammar Unit := rule <| do
  twoDigits; word ":"; twoDigits; word ":"; twoDigits
  discard (optional (rule (do word "."; discard (several digit))))

def zone : Grammar Unit := rule <|
  word "Z"
  <|> rule (do discard (char fun c => c = '-' || c = '+'); twoDigits; word ":"; twoDigits)

/-- A day, which may have a time with a zone, or a time. -/
def moment : Grammar Unit := rule <|
  (do day; discard (optional (do word "T"; rule (do time; zone)))) <|> time

def boolean : Grammar Bool := rule <|
  (do word "true"; return true) <|> (do word "false"; return false)

/-! ## Keys and values -/

def key : Grammar Key := rule <|
  rule (do
    let first ← char isKeyChar
    let rest ← span isKeyChar
    return ⟨some (String.ofList (first :: rest)), ← line⟩)
  <|> rule (do
    word "\""
    let inside ← captured (several basicChar)
    word "\""
    return ⟨stringOf inside.toList, ← line⟩)
where
  isKeyChar (c : Char) : Bool := c.isAlphanum || c = '_' || c = '-'

def entrySeparator : Grammar Unit := rule <| do blanks; word ","; blanks

/-- A gap in an array, with a comment if there is one. -/
def arrayGap : Grammar Unit := do anyBlanks; discard (optional comment)

def itemSeparator : Grammar Unit := rule <| word ","

mutual

/-- A value. Every level of brackets takes fuel; one for each character is enough. -/
def value : (fuel : Nat) → Grammar Value
  | 0 => failure
  | fuel + 1 => rule <|
    Value.moment <$> captured moment
    <|> (fun s => Value.float (digitsOf s)) <$> captured float
    <|> (fun s => Value.int (digitsOf s)) <$> captured integer
    <|> (do let s ← string; return .text s (← line))
    <|> Value.flag <$> boolean
    <|> Value.array <$> array fuel
    <|> inlineTable fuel

def array : (fuel : Nat) → Grammar (List Value)
  | 0 => failure
  | fuel + 1 => rule <| do
    word "["
    anyBlanks
    let items ← optional (rule (do
      let first ← value fuel
      let later ← many (do
        arrayGap; anyBlanks; itemSeparator; arrayGap; anyBlanks
        value fuel)
      anyBlanks; discard (optional itemSeparator); arrayGap
      return first :: later))
    anyBlanks
    word "]"
    return items.getD []

def inlineTable : (fuel : Nat) → Grammar Value
  | 0 => failure
  | fuel + 1 => rule <| do
    word "\x7b"
    let start ← line
    blanks
    let entries ← rule (many (do
      let entry ← keyValue fuel
      discard (optional entrySeparator)
      return entry))
    blanks
    word "\x7d"
    return .table start entries

def keyValue : (fuel : Nat) → Grammar KeyValue
  | 0 => failure
  | fuel + 1 => rule <| do
    let k ← key
    blanks; word "="; blanks
    let v ← value fuel
    return (k, v, ← line)

end

/-! ## Lines -/

def path : Grammar (List Key) := rule <| do
  let first ← rule key
  let later ← many (do
    rule (do blanks; word "."; blanks)
    rule key)
  return first :: later

def headerBetween (isArray : Bool) (opening closing : String) : Grammar Statement := rule <| do
  word opening
  blanks
  let before ← get
  let keys ← path
  let name := String.ofList (before.rest.take ((← get).place - before.place))
  blanks
  word closing
  return .header isArray keys name (← line)

def header : Grammar Statement := rule <|
  headerBetween false "[" "]" <|> headerBetween true "[[" "]]"

def lineRest : Grammar Unit := do blanks; discard (optional comment)

/-- A line: a header with the entries after it, an entry, or nothing. -/
def expression (fuel : Nat) : Grammar (List Statement) := rule <|
  (do
    blanks
    let h ← header
    lineRest
    let entries ← many (do
      anyBlanks
      let entry ← keyValue fuel
      lineRest
      return Statement.entry entry)
    return h :: entries)
  <|> (do
    blanks
    let entry ← keyValue fuel
    lineRest
    return [.entry entry])
  <|> (do lineRest; return [])

def document (fuel : Nat) : Grammar (List Statement) := rule <| do
  let first ← expression fuel
  let later ← many (do discard lineEnds; expression fuel)
  discard (optional lineEnds)
  done
  return first ++ later.flatten

/-- The statements of a text, or the line up to which it can be read. That is the line of the character
    after the farthest end of a rule, and a line feed counts for the next line. -/
def statements (text : String) : Except Nat (List Statement) :=
  let cs := text.toList
  match (document (2 * cs.length + 2)).read cs with
  | (some all, _) => .ok all
  | (none, farthest) => .error ((cs.take (farthest + 1)).count '\n' + 1)

end KestrelLang.Toml
