import KestrelLang.Number.Reading
import KestrelLang.Text.Width

/-! # Tables

* `Table` — a header and rows of cells, each on one line.
* `isNumeral` — cells that stand on the right.
* `Table.text` — a table with lines of ASCII characters around its columns. -/

namespace KestrelLang

structure Table where
  header : List String
  rows : List (List String)
  deriving DecidableEq, Repr, Inhabited

def blanks (n : Nat) : String := String.ofList (List.replicate n ' ')

/-- Groups of three digits with commas between, after a first group of one to three. -/
def isGrouped (cs : List Char) : Bool :=
  match (String.ofList cs).splitOn "," with
  | first :: rest =>
    let digits := fun s : String => s.toList.all Char.isDigit
    digits first && 1 ≤ first.length && first.length ≤ 3
      && rest.all fun s => digits s && s.length = 3
  | [] => false

def isNumeral (s : String) : Bool :=
  let body := match s.toList with
    | '-' :: cs => cs
    | cs => cs
  let whole := body.takeWhile (· ≠ '.')
  let wholeFits := (!whole.isEmpty && whole.all Char.isDigit) || isGrouped whole
  match body.dropWhile (· ≠ '.') with
  | [] => wholeFits
  | _ :: places => wholeFits && !places.isEmpty && places.all Char.isDigit

namespace Table

def onLeft (width : Nat) (s : String) : String := s ++ blanks (width - Text.displayWidth s)

def onRight (width : Nat) (s : String) : String := blanks (width - Text.displayWidth s) ++ s

/-- A text in the middle of a column; an odd blank goes to the right. -/
def inMiddle (width : Nat) (s : String) : String :=
  let gap := width - Text.displayWidth s
  blanks (gap / 2) ++ s ++ blanks (gap - gap / 2)

def cellText (width : Nat) (s : String) : String :=
  if isNumeral s then onRight width s else onLeft width s

def titles (t : Table) : List String :=
  t.header.map fun s => String.ofList (s.toList.map Char.toUpper)

def widths (t : Table) : List Nat :=
  t.header.zipIdx.map fun (title, i) =>
    (t.rows.map fun row => Text.displayWidth (row[i]?.getD "")).foldl max (Text.displayWidth title)

def rule (widths : List Nat) : String :=
  "+" ++ String.join (widths.map fun w => String.ofList (List.replicate (w + 2) '-') ++ "+") ++ "\n"

def lineText (cell : Nat → String → String) (widths : List Nat) (cells : List String) : String :=
  "|" ++ String.join ((widths.zip cells).map fun (w, s) => " " ++ cell w s ++ " |") ++ "\n"

def text (t : Table) : String :=
  let ws := t.widths
  rule ws ++ lineText inMiddle ws t.titles ++ rule ws
    ++ String.join (t.rows.map (lineText cellText ws)) ++ rule ws

end Table

end KestrelLang
