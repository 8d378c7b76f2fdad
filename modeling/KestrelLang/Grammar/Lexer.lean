import KestrelLang.Grammar.ParseError
import KestrelLang.Text.Characters

/-! # Lexer

* `skipTrivia` — passes over white space and comments.
* `scanWord`, `scanNumber`, `scanContents`, `scanPunct` — read one token each.
* `scanToken` — chooses among them by the first character.
* `tokenize` — splits a whole text; `TokenList` keeps the place where the text ends.

Every scanner returns the characters left over, and a token always takes at least one character, so
the loop over the text ends. -/

namespace KestrelLang.Lexer

open KestrelLang.Text

structure Cursor where
  pos : Position
  rest : List Char
  deriving DecidableEq, Repr, Inhabited

def Cursor.skip (k : Cursor) (n : Nat) : Cursor :=
  ⟨k.pos.advanceAll (k.rest.take n), k.rest.drop n⟩

/-! ## Between tokens -/

/-- Passes over white space and comments; `inComment` says that reading stands inside a comment,
    which runs from `#` up to the end of its line. -/
def skipTrivia (inComment : Bool) (pos : Position) : List Char → Cursor
  | [] => ⟨pos, []⟩
  | c :: cs =>
    if inComment then skipTrivia (c ≠ '\n') (pos.advance c) cs
    else if isBlank c then skipTrivia false (pos.advance c) cs
    else if c = '#' then skipTrivia true (pos.advance c) cs
    else ⟨pos, c :: cs⟩

/-! ## Words and numbers -/

def isWordStart (c : Char) : Bool := c = '_' || isLetter c

def isWordChar (c : Char) : Bool := c = '_' || isLetter c || isDigit c

def isNumberChar (c : Char) : Bool := c = '_' || isDigit c

def wordLexeme (s : String) : Lexeme :=
  match Keyword.ofText? s with
  | some word => .keyword word
  | none => .ident s

def scanWord (cs : List Char) : Lexeme × Nat :=
  let word := cs.takeWhile isWordChar
  (wordLexeme (String.ofList word), word.length)

/-- Reads a number. Underscores in the whole part are dropped; a point belongs to the number only
    if a digit follows it, so that `1..5` is a range. -/
def scanNumber (cs : List Char) : Lexeme × Nat :=
  let whole := cs.takeWhile isNumberChar
  let digits := whole.filter (· ≠ '_')
  match cs.drop whole.length with
  | '.' :: d :: more =>
    if isDigit d then
      let fraction := (d :: more).takeWhile isDigit
      (.float (String.ofList (digits ++ '.' :: fraction)), whole.length + 1 + fraction.length)
    else (.int (String.ofList digits), whole.length)
  | _ => (.int (String.ofList digits), whole.length)

/-! ## Strings -/

/-- What a backslash and the character after it stand for. An unknown escape stays as written. -/
def unescape : Char → List Char
  | 'n' => ['\n']
  | 't' => ['\t']
  | '\\' => ['\\']
  | '"' => ['"']
  | '\'' => ['\'']
  | c => ['\\', c]

/-- Reads the inside of a string up to the closing `mark`: its contents and the number of
    characters up to and including the mark, or nothing if the text ends first. -/
def scanContents (mark : Char) : List Char → Option (List Char × Nat)
  | [] => none
  | c :: cs =>
    if c = mark then some ([], 1)
    else if c = '\\' then
      match cs with
      | [] => none
      | e :: more => (scanContents mark more).map fun (s, n) => (unescape e ++ s, n + 2)
    else (scanContents mark cs).map fun (s, n) => (c :: s, n + 1)

/-! ## One token -/

def scanPunct (c : Char) (cs : List Char) : Option (Lexeme × Nat) :=
  let pair := match cs with
    | d :: _ => (Punct.ofPair? c d).map fun p => (.punct p, 2)
    | [] => none
  pair <|> (Punct.ofChar? c).map fun p => (.punct p, 1)

/-- Reads the token that starts with `c`: its lexeme and its number of characters. -/
def scanToken (c : Char) (cs : List Char) : Except ParseCause (Lexeme × Nat) :=
  if isWordStart c then .ok (scanWord (c :: cs))
  else if isDigit c then .ok (scanNumber (c :: cs))
  else if c = '"' || c = '\'' then
    match scanContents c cs with
    | some (s, n) => .ok (.string (String.ofList s), n + 1)
    | none => .error .unterminatedString
  else
    match scanPunct c cs with
    | some found => .ok found
    | none => .error (.unexpectedCharacter c)

/-! ## The whole text -/

/-- The tokens of a text in order, and the place where the text ends. -/
structure TokenList where
  tokens : List Token
  eof : Position
  deriving DecidableEq, Repr, Inhabited

def TokenList.eofToken (l : TokenList) : Token := ⟨.eof, l.eof, l.eof⟩

def TokenList.toList (l : TokenList) : List Token := l.tokens ++ [l.eofToken]

theorem length_skipTrivia (b : Bool) (pos : Position) (cs : List Char) :
    (skipTrivia b pos cs).rest.length ≤ cs.length := by
  induction cs generalizing b pos with
  | nil => simp [skipTrivia]
  | cons c cs ih =>
    unfold skipTrivia
    split
    · exact Nat.le_succ_of_le (ih _ _)
    · split
      · exact Nat.le_succ_of_le (ih _ _)
      · split
        · exact Nat.le_succ_of_le (ih _ _)
        · simp

theorem scanWord_pos {c : Char} (cs : List Char) (h : isWordStart c = true) :
    0 < (scanWord (c :: cs)).2 := by
  have hc : isWordChar c = true := by
    unfold isWordStart at h
    unfold isWordChar
    simp [h]
  simp [scanWord, hc]

theorem scanNumber_pos {c : Char} (cs : List Char) (h : isDigit c = true) :
    0 < (scanNumber (c :: cs)).2 := by
  have hc : isNumberChar c = true := by simp [isNumberChar, h]
  have hw : 0 < ((c :: cs).takeWhile isNumberChar).length := by simp [hc]
  unfold scanNumber
  dsimp only
  split
  · split
    · simp only; omega
    · exact hw
  · exact hw

theorem scanPunct_pos {c : Char} {cs : List Char} {found : Lexeme × Nat}
    (h : scanPunct c cs = some found) : 0 < found.2 := by
  have single : ∀ r, (Punct.ofChar? c).map (fun p => (Lexeme.punct p, 1)) = some r → 0 < r.2 := by
    intro r hr
    obtain ⟨p, _, rfl⟩ := Option.map_eq_some_iff.1 hr
    exact Nat.one_pos
  cases cs with
  | nil => exact single found (by simpa [scanPunct] using h)
  | cons d ds =>
    cases hp : Punct.ofPair? c d with
    | none => exact single found (by simpa [scanPunct, hp] using h)
    | some p =>
      have : found = (.punct p, 2) := by simpa [scanPunct, hp] using h.symm
      simp [this]

theorem scanToken_pos {c : Char} {cs : List Char} {lexeme : Lexeme} {n : Nat}
    (h : scanToken c cs = .ok (lexeme, n)) : 0 < n := by
  unfold scanToken at h
  split at h
  · next hw =>
    have := scanWord_pos cs hw
    cases h' : scanWord (c :: cs) with
    | mk l k => rw [h'] at h this; cases h; exact this
  · split at h
    · next hd =>
      have := scanNumber_pos cs hd
      cases h' : scanNumber (c :: cs) with
      | mk l k => rw [h'] at h this; cases h; exact this
    · split at h
      · split at h
        · cases h; omega
        · cases h
      · split at h
        · next found hf => cases h; exact scanPunct_pos hf
        · cases h

def scan (pos : Position) (cs : List Char) : Except ParseError TokenList :=
  match h : skipTrivia false pos cs with
  | ⟨stop, []⟩ => .ok ⟨[], stop⟩
  | ⟨start, c :: rest⟩ =>
    match hs : scanToken c rest with
    | .error cause => .error ⟨cause, start, ""⟩
    | .ok (lexeme, n) =>
      let next := Cursor.skip ⟨start, c :: rest⟩ n
      have shorter : next.rest.length < cs.length := by
        have hpos := scanToken_pos hs
        have hlen := length_skipTrivia false pos cs
        rw [h] at hlen
        simp only [next, Cursor.skip, List.length_drop, List.length_cons] at hlen ⊢
        omega
      match scan next.pos next.rest with
      | .error e => .error e
      | .ok l => .ok ⟨⟨lexeme, start, next.pos⟩ :: l.tokens, l.eof⟩
termination_by cs.length

/-- Splits a text into tokens, or reports the first place where none can be read. -/
def tokenize (text : List Char) : Except ParseError TokenList :=
  scan .first text

end KestrelLang.Lexer
