/-! # Positions and spans

* `Position` — a line and a column, both counted from one; columns count code points.
* `Position.advance`, `Position.advanceAll` — where reading stands after one or many characters.
* `Span` — the stretch between two positions; the all-zero span means "nowhere".
* `Span.between` — from the start of one span to the end of another. -/

namespace KestrelLang

/-- A place in a text. Positions the lexer makes have a line and a column of at least one; a host
    may build others. -/
structure Position where
  line : Int
  column : Int
  deriving DecidableEq, Repr, Inhabited

namespace Position

def first : Position := ⟨1, 1⟩

def zero : Position := ⟨0, 0⟩

/-- The place after reading `c` here: a line feed starts the next line. -/
def advance (p : Position) (c : Char) : Position :=
  if c = '\n' then ⟨p.line + 1, 1⟩ else ⟨p.line, p.column + 1⟩

def advanceAll (p : Position) (cs : List Char) : Position :=
  cs.foldl advance p

def text (p : Position) : String :=
  s!"{p.line}:{p.column}"

end Position

/-- A stretch of text; `stop` is the place just after its last character. -/
structure Span where
  start : Position
  stop : Position
  deriving DecidableEq, Repr, Inhabited

namespace Span

def zero : Span := ⟨.zero, .zero⟩

def isZero (s : Span) : Bool := s = zero

def text (s : Span) : String :=
  if s.isZero then "" else s.start.text

def between (a b : Span) : Span := ⟨a.start, b.stop⟩

end Span

end KestrelLang
