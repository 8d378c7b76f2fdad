import KestrelLang.Settings.Yaml.Cursor

/-! # Why a text is no YAML document

* `Yaml.Problem` — the causes, with their wording.
* `Yaml.SyntaxError` — a cause with the line to blame.
* `Yaml.blamed` — the line of what was being read, or else of the place of the problem. -/

namespace KestrelLang.Yaml

inductive Problem where
  | controlCharacter
  | unknownAnchor (name : String)
  -- words and lines
  | cannotStart
  | missingColon
  | tooDeep
  | entryNotAllowed
  | keyNotAllowed
  | valueNotAllowed
  | expectedLineEnd
  -- scalars
  | documentMarkInQuotes
  | unclosedQuote
  | unknownEscape
  | expectedHex
  | invalidCodePoint
  | tabInPlain
  | zeroIndent
  | tabInBlock
  -- anchors, tags and directives
  | expectedName
  | expectedTagClose
  | expectedTagMark
  | expectedTagText
  | expectedOctet
  | badLeadingOctet
  | badTrailingOctet
  | expectedWordEnd
  | expectedBlank
  | unknownDirective
  | expectedDirectiveName
  | badDirectiveName
  | expectedVersionPoint
  | longVersion
  | expectedVersion
  -- the shape of a document
  | repeatedVersion
  | incompatibleVersion
  | repeatedHandle
  | undefinedHandle
  | expectedDocumentStart
  | expectedContent
  | expectedKey
  | expectedEntry
  | expectedItemEnd
  | expectedFieldEnd
  deriving DecidableEq, Repr, Inhabited

def Problem.message : Problem → String
  | .controlCharacter => "control characters are not allowed"
  | .unknownAnchor name => "unknown anchor '" ++ name ++ "' referenced"
  | .cannotStart => "found character that cannot start any token"
  | .missingColon => "could not find expected ':'"
  | .tooDeep => "exceeded max depth of 10000"
  | .entryNotAllowed => "block sequence entries are not allowed in this context"
  | .keyNotAllowed => "mapping keys are not allowed in this context"
  | .valueNotAllowed => "mapping values are not allowed in this context"
  | .expectedLineEnd => "did not find expected comment or line break"
  | .documentMarkInQuotes => "found unexpected document indicator"
  | .unclosedQuote => "found unexpected end of stream"
  | .unknownEscape => "found unknown escape character"
  | .expectedHex => "did not find expected hexdecimal number"
  | .invalidCodePoint => "found invalid Unicode character escape code"
  | .tabInPlain => "found a tab character that violates indentation"
  | .zeroIndent => "found an indentation indicator equal to 0"
  | .tabInBlock => "found a tab character where an indentation space is expected"
  | .expectedName => "did not find expected alphabetic or numeric character"
  | .expectedTagClose => "did not find the expected '>'"
  | .expectedTagMark => "did not find expected '!'"
  | .expectedTagText => "did not find expected tag URI"
  | .expectedOctet => "did not find URI escaped octet"
  | .badLeadingOctet => "found an incorrect leading UTF-8 octet"
  | .badTrailingOctet => "found an incorrect trailing UTF-8 octet"
  | .expectedWordEnd => "did not find expected whitespace or line break"
  | .expectedBlank => "did not find expected whitespace"
  | .unknownDirective => "found unknown directive name"
  | .expectedDirectiveName => "could not find expected directive name"
  | .badDirectiveName => "found unexpected non-alphabetical character"
  | .expectedVersionPoint => "did not find expected digit or '.' character"
  | .longVersion => "found extremely long version number"
  | .expectedVersion => "did not find expected version number"
  | .repeatedVersion => "found duplicate %YAML directive"
  | .incompatibleVersion => "found incompatible YAML document"
  | .repeatedHandle => "found duplicate %TAG directive"
  | .undefinedHandle => "found undefined tag handle"
  | .expectedDocumentStart => "did not find expected <document start>"
  | .expectedContent => "did not find expected node content"
  | .expectedKey => "did not find expected key"
  | .expectedEntry => "did not find expected '-' indicator"
  | .expectedItemEnd => "did not find expected ',' or ']'"
  | .expectedFieldEnd => "did not find expected ',' or '\x7d'"

/-- A cause with the line to blame; zero stands for no line. -/
structure SyntaxError where
  problem : Problem
  line : Nat
  deriving DecidableEq, Repr, Inhabited

/-- The line of what was being read when a problem came up; where that is the first line, the line of
    the problem itself. -/
def blamed (start here : Mark) : Nat := if start.line = 0 then here.line else start.line

namespace SyntaxError

/-- A problem in the characters of a text. Its lines count from one, but the first is not named. -/
def inText (problem : Problem) (start here : Mark) : SyntaxError :=
  let line := blamed start here
  ⟨problem, if line = 0 then 0 else line + 1⟩

/-- A problem in the shape of a document. Its lines count from zero, and the first is not named. -/
def inShape (problem : Problem) (start here : Mark) : SyntaxError := ⟨problem, blamed start here⟩

def message (e : SyntaxError) : String :=
  if e.line = 0 then "yaml: " ++ e.problem.message
  else s!"yaml: line {e.line}: " ++ e.problem.message

end SyntaxError

end KestrelLang.Yaml
