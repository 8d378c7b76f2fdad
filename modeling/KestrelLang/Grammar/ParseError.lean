import KestrelLang.Grammar.Token

/-! # Parse errors

* `ParseCause` — why a text is not a module, with its wording in `ParseCause.message`.
* `ParseError` — a cause with its place and the name of the text.
* `ParseError.isIncomplete` — the text ended too early, so more lines might complete it. -/

namespace KestrelLang

inductive ParseCause where
  /-- No token starts with this character. -/
  | unexpectedCharacter (c : Char)
  /-- A string runs to the end of the text. -/
  | unterminatedString
  /-- A block runs to the end of the text. -/
  | unterminatedBlock
  /-- A certain lexeme had to stand here. -/
  | expectedLexeme (wanted found : Lexeme)
  /-- A name had to stand here; `role` says what for. -/
  | expectedName (role : String) (found : Lexeme)
  /-- A statement has to end here. -/
  | expectedTerminator (found : Lexeme)
  /-- No expression starts with this lexeme. -/
  | unexpectedInExpression (found : Lexeme)
  /-- Only a name or an element of something can be assigned to. -/
  | invalidAssignmentTarget
  /-- A label must stand before a loop or a block. -/
  | misplacedLabel (label : String) (found : Lexeme)
  /-- The digits do not fit a 64-bit signed integer. -/
  | integerOutOfRange (digits : String)
  /-- The digits are not those of a finite number. -/
  | invalidFloat (digits : String)
  /-- A complaint of the host in its own words. -/
  | custom (message : String)
  deriving DecidableEq, Repr, Inhabited

def ParseCause.message : ParseCause → String
  | .unexpectedCharacter c => "unexpected character " ++ Text.quoteChar c
  | .unterminatedString => "unterminated string literal"
  | .unterminatedBlock => "unterminated block"
  | .expectedLexeme wanted found =>
    "expected " ++ Text.quote wanted.text ++ ", found " ++ found.describe
  | .expectedName role found => "expected " ++ role ++ ", found " ++ found.describe
  | .expectedTerminator found => "expected ';' after statement, found " ++ found.describe
  | .unexpectedInExpression found => "unexpected " ++ found.describe ++ " in expression"
  | .invalidAssignmentTarget => "invalid assignment target"
  | .misplacedLabel label found =>
    "label " ++ label ++ " must precede a loop or block, found " ++ found.describe
  | .integerOutOfRange digits => "integer literal " ++ digits ++ " out of range"
  | .invalidFloat digits => "invalid float literal " ++ digits
  | .custom message => message

/-- A cause, where it was noticed, and the name of the text (empty when it has none). -/
structure ParseError where
  cause : ParseCause
  place : Position
  origin : String
  deriving DecidableEq, Repr, Inhabited

namespace ParseError

def summary (e : ParseError) : String := e.cause.message

def message (e : ParseError) : String :=
  (if e.origin = "" then "line " else e.origin ++ ":") ++ e.place.text ++ ": " ++ e.summary

def occursIn (part : List Char) : List Char → Bool
  | [] => part.isEmpty
  | c :: cs => part.isPrefixOf (c :: cs) || occursIn part cs

/-- The wording speaks of the end of the input, or of something unterminated: the text may be the
    beginning of a longer one. -/
def isIncomplete (e : ParseError) : Bool :=
  occursIn "end of input".toList e.summary.toList
    || "unterminated".toList.isPrefixOf e.summary.toList

end ParseError

end KestrelLang
