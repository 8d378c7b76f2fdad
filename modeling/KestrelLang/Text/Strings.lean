import KestrelLang.Text.Characters

/-! # Strings

* `trim` — a text without the white space at its two ends.
* `lowerAscii` — a text in small letters, for comparison with ASCII words.
* `sortTexts` — texts sorted by code points and without repetition.
* `quote` — a string between double quotes, with every character that is not printable escaped.
* `quoteChar` — a single character between single quotes.

A short escape is used where one exists (`\n`, `\t`, …); other ASCII control characters are written
with two hexadecimal digits, the rest with four or eight. -/

namespace KestrelLang.Text

def trimBlank (cs : List Char) : List Char :=
  ((cs.dropWhile isBlank).reverse.dropWhile isBlank).reverse

def trim (s : String) : String :=
  String.ofList (trimBlank s.toList)

def lowerAscii (s : String) : String := String.ofList (s.toList.map lowerChar)

/-! ## Sorting -/

/-- Inserts a text into a sorted list without repetition. -/
def insertSorted (s : String) : List String → List String
  | [] => [s]
  | t :: ts => if s < t then s :: t :: ts else if s = t then t :: ts else t :: insertSorted s ts

def sortTexts (texts : List String) : List String :=
  texts.foldr insertSorted []

/-! ## Quoting -/

def hexPadded (width n : Nat) : String :=
  let digits := Nat.toDigits 16 n
  String.ofList (List.replicate (width - digits.length) '0' ++ digits)

def escapeChar (mark c : Char) : String :=
  if c = mark || c = '\\' then String.ofList ['\\', c]
  else if isPrintable c then String.ofList [c]
  else match c.toNat with
    | 0x07 => "\\a"
    | 0x08 => "\\b"
    | 0x0c => "\\f"
    | 0x0a => "\\n"
    | 0x0d => "\\r"
    | 0x09 => "\\t"
    | 0x0b => "\\v"
    | n =>
      if n < 0x20 || n = 0x7f then "\\x" ++ hexPadded 2 n
      else if n < 0x10000 then "\\u" ++ hexPadded 4 n
      else "\\U" ++ hexPadded 8 n

def quote (s : String) : String :=
  "\"" ++ String.join (s.toList.map (escapeChar '"')) ++ "\""

def quoteChar (c : Char) : String :=
  "'" ++ escapeChar '\'' c ++ "'"

end KestrelLang.Text
