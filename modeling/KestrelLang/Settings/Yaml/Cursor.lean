/-! # Places in a text

* `Yaml.isBreak`, `Yaml.isBlank`, `Yaml.endsWord` — line breaks, spaces and tabs, and the ends of
  words.
* `Yaml.unified` — a text with one kind of ordinary line break.
* `Yaml.Mark` — a place in a text; `Mark.after` is the place after a character.
* `Yaml.Cursor` — a place with the text from there on; `Cursor.span` splits off the longest run of
  characters of a class. -/

namespace KestrelLang.Yaml

/-! ## Classes of characters -/

def isBreak (c : Char) : Bool :=
  c = '\n' || c = '\r' || c.toNat = 0x85 || c.toNat = 0x2028 || c.toNat = 0x2029

def isBlank (c : Char) : Bool := c = ' ' || c = '\t'

def isWordChar (c : Char) : Bool := c.isAlphanum || c = '_' || c = '-'

def endsWord : List Char → Bool
  | [] => true
  | c :: _ => isBlank c || isBreak c

def isAllowed (c : Char) : Bool :=
  let n := c.toNat
  n = 0x09 || n = 0x0a || n = 0x0d || (0x20 ≤ n && n ≤ 0x7e) || n = 0x85
    || (0xa0 ≤ n && n ≤ 0xfffd) || 0x10000 ≤ n

/-- A text in which a carriage return, alone or before a line feed, and a next-line character are
    line feeds. The two other line breaks stay, since folding keeps them. -/
def unified : List Char → List Char
  | [] => []
  | '\r' :: '\n' :: cs => '\n' :: unified cs
  | c :: cs => (if c = '\r' || c.toNat = 0x85 then '\n' else c) :: unified cs

/-! ## Marks -/

/-- A place in a text: the characters before it, and its line and column, counted from zero. `fresh`
    says that nothing but blanks stands between the last line break and the place. -/
structure Mark where
  index : Nat := 0
  line : Nat := 0
  column : Nat := 0
  fresh : Bool := false
  deriving DecidableEq, Repr, Inhabited

namespace Mark

def after (m : Mark) (c : Char) : Mark :=
  if isBreak c then ⟨m.index + 1, m.line + 1, 0, true⟩
  else ⟨m.index + 1, m.line, m.column + 1, m.fresh && isBlank c⟩

def afterAll (m : Mark) (cs : List Char) : Mark := cs.foldl after m

end Mark

/-! ## Cursors -/

structure Cursor where
  mark : Mark
  rest : List Char
  deriving DecidableEq, Repr, Inhabited

namespace Cursor

def ofText (cs : List Char) : Cursor := ⟨{}, cs⟩

def skip (n : Nat) (c : Cursor) : Cursor := ⟨c.mark.afterAll (c.rest.take n), c.rest.drop n⟩

def span (p : Char → Bool) (c : Cursor) : List Char × Cursor :=
  let run := c.rest.takeWhile p
  (run, c.skip run.length)

def skipWhile (p : Char → Bool) (c : Cursor) : Cursor := (c.span p).2

def toLineEnd (c : Cursor) : Cursor := c.skipWhile fun x => !isBreak x

def passBreak (c : Cursor) : Cursor :=
  match c.rest with
  | x :: _ => if isBreak x then c.skip 1 else c
  | [] => c

/-- A line starts with three times the given character, which stand alone. -/
def atDocumentMark (c : Cursor) (x : Char) : Bool :=
  c.mark.column = 0 && c.rest.take 3 = [x, x, x] && endsWord (c.rest.drop 3)

end Cursor

end KestrelLang.Yaml
