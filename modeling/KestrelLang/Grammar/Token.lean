import KestrelLang.Grammar.Span
import KestrelLang.Text.Strings

/-! # Tokens

* `Keyword`, `Punct` — the reserved words and the punctuation marks.
* `Lexeme` — what a token says: a name, a word, a mark or a literal.
* `Token` — a lexeme with the two ends of its stretch of text.
* `Lexeme.describe` — how an error message names what was found. -/

namespace KestrelLang

/-! ## Reserved words -/

inductive Keyword where
  | subWord | myWord | returnWord | ifWord | elsifWord | elseWord | unlessWord | whileWord
  | untilWord | forWord | foreachWord | lastWord | nextWord | redoWord | gotoWord | undefWord
  deriving DecidableEq, Repr, Inhabited

namespace Keyword

def text : Keyword → String
  | .subWord => "sub"
  | .myWord => "my"
  | .returnWord => "return"
  | .ifWord => "if"
  | .elsifWord => "elsif"
  | .elseWord => "else"
  | .unlessWord => "unless"
  | .whileWord => "while"
  | .untilWord => "until"
  | .forWord => "for"
  | .foreachWord => "foreach"
  | .lastWord => "last"
  | .nextWord => "next"
  | .redoWord => "redo"
  | .gotoWord => "goto"
  | .undefWord => "undef"

def all : List Keyword :=
  [.subWord, .myWord, .returnWord, .ifWord, .elsifWord, .elseWord, .unlessWord, .whileWord,
    .untilWord, .forWord, .foreachWord, .lastWord, .nextWord, .redoWord, .gotoWord, .undefWord]

def ofText? (s : String) : Option Keyword :=
  all.find? fun k => k.text = s

end Keyword

/-! ## Punctuation -/

inductive Punct where
  | range | eq | ne | le | ge | and | or | plusAssign | minusAssign | dotAssign
  | lparen | rparen | lbrace | rbrace | lbracket | rbracket | semicolon | comma | colon
  | plus | minus | star | slash | percent | dot | lt | gt | bang | assign | amp
  deriving DecidableEq, Repr, Inhabited

namespace Punct

def text : Punct → String
  | .range => ".."
  | .eq => "=="
  | .ne => "!="
  | .le => "<="
  | .ge => ">="
  | .and => "&&"
  | .or => "||"
  | .plusAssign => "+="
  | .minusAssign => "-="
  | .dotAssign => ".="
  | .lparen => "("
  | .rparen => ")"
  | .lbrace => "\x7b"
  | .rbrace => "\x7d"
  | .lbracket => "["
  | .rbracket => "]"
  | .semicolon => ";"
  | .comma => ","
  | .colon => ":"
  | .plus => "+"
  | .minus => "-"
  | .star => "*"
  | .slash => "/"
  | .percent => "%"
  | .dot => "."
  | .lt => "<"
  | .gt => ">"
  | .bang => "!"
  | .assign => "="
  | .amp => "&"

def ofPair? : Char → Char → Option Punct
  | '.', '.' => some .range
  | '=', '=' => some .eq
  | '!', '=' => some .ne
  | '<', '=' => some .le
  | '>', '=' => some .ge
  | '&', '&' => some .and
  | '|', '|' => some .or
  | '+', '=' => some .plusAssign
  | '-', '=' => some .minusAssign
  | '.', '=' => some .dotAssign
  | _, _ => none

def ofChar? : Char → Option Punct
  | '(' => some .lparen
  | ')' => some .rparen
  | '\x7b' => some .lbrace
  | '\x7d' => some .rbrace
  | '[' => some .lbracket
  | ']' => some .rbracket
  | ';' => some .semicolon
  | ',' => some .comma
  | ':' => some .colon
  | '+' => some .plus
  | '-' => some .minus
  | '*' => some .star
  | '/' => some .slash
  | '%' => some .percent
  | '.' => some .dot
  | '<' => some .lt
  | '>' => some .gt
  | '!' => some .bang
  | '=' => some .assign
  | '&' => some .amp
  | _ => none

end Punct

/-! ## Lexemes and tokens -/

inductive TokenKind where
  | eof | ident | keyword | int | float | string | punct
  deriving DecidableEq, Repr, Inhabited

namespace TokenKind

def text : TokenKind → String
  | .eof => "EOF"
  | .ident => "identifier"
  | .keyword => "keyword"
  | .int => "integer"
  | .float => "float"
  | .string => "string"
  | .punct => "punctuation"

def all : List TokenKind :=
  [.eof, .ident, .keyword, .int, .float, .string, .punct]

end TokenKind

/-- What a token says. A number keeps its digits as text, without underscores; a string keeps its
    contents with the escapes resolved. -/
inductive Lexeme where
  | eof
  | ident (name : String)
  | keyword (word : Keyword)
  | int (digits : String)
  | float (digits : String)
  | string (contents : String)
  | punct (mark : Punct)
  deriving DecidableEq, Repr, Inhabited

namespace Lexeme

def kind : Lexeme → TokenKind
  | .eof => .eof
  | .ident _ => .ident
  | .keyword _ => .keyword
  | .int _ => .int
  | .float _ => .float
  | .string _ => .string
  | .punct _ => .punct

/-- The text of a lexeme: its spelling, or the value of a string. -/
def text : Lexeme → String
  | .eof => ""
  | .ident name => name
  | .keyword word => word.text
  | .int digits => digits
  | .float digits => digits
  | .string contents => contents
  | .punct mark => mark.text

/-- How an error message names a lexeme that it did not expect. -/
def describe : Lexeme → String
  | .eof => "end of input"
  | .string contents => "string " ++ Text.quote contents
  | lexeme => Text.quote lexeme.text

end Lexeme

structure Token where
  lexeme : Lexeme
  start : Position
  stop : Position
  deriving DecidableEq, Repr, Inhabited

def Token.span (t : Token) : Span := ⟨t.start, t.stop⟩

end KestrelLang
