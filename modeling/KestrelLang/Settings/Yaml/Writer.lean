import KestrelLang.Settings.Field
import KestrelLang.Settings.Yaml.Cursor
import KestrelLang.Settings.Yaml.Meaning
import KestrelLang.Text.Strings

/-! # Writing YAML

* `Yaml.ScalarStyle`, `Yaml.styleOf` — how a text is written: plain if it reads back as itself, else
  between quotes or, with line breaks in it, as a block.
* `Yaml.scalarText` — a text in its style.
* `Yaml.configText` — settings as a document, two spaces deep. -/

namespace KestrelLang.Yaml

/-! ## Classes of text -/

def isShown (c : Char) : Bool :=
  let n := c.toNat
  n = 0x0a || (0x20 ≤ n && n ≤ 0x7e) || (0xa0 ≤ n && n < 0xfffe && n ≠ 0xfeff)

def isOldFlag (s : String) : Bool :=
  ["y", "Y", "yes", "Yes", "YES", "on", "On", "ON", "n", "N", "no", "No", "NO", "off", "Off",
    "OFF"].contains s

/-- A number between 0 and 59 of at most two digits. -/
def isSixtieth (s : String) : Bool :=
  match s.toList with
  | [a] => a.isDigit
  | [a, b] => '0' ≤ a && a ≤ '5' && b.isDigit
  | _ => false

/-- A number in base sixty in an older edition of the format: parts with colons between. -/
def isBaseSixty (s : String) : Bool :=
  let digits := fun c : Char => c.isDigit || c = '_'
  match s.splitOn ":" with
  | first :: rest =>
    let (_, head) := Number.splitSign first.toList
    let headFits := match head with
      | c :: cs => c.isDigit && cs.all digits
      | [] => false
    match rest.reverse with
    | last :: middle =>
      let whole := String.ofList (last.toList.takeWhile (· ≠ '.'))
      let places := last.toList.dropWhile (· ≠ '.')
      headFits && middle.all isSixtieth && isSixtieth whole && (places.drop 1).all digits
    | [] => false
  | [] => false

/-- A text that would stand for something else if it were written plain. -/
def isMisleading (s : String) : Bool :=
  match plainMeaning s with
  | .text _ => isBaseSixty s || isOldFlag s
  | _ => true

/-- A character at a place that gives it a meaning of its own. `before` is the character before it. -/
def isIndicator (before : Option Char) (c : Char) (after : List Char) : Bool :=
  let gapAfter := match after with
    | [] => true
    | a :: _ => isBlank a
  match before with
  | none =>
    "#,[]\x7b\x7d&*!|>'\"%@`".toList.contains c || ((c = '?' || c = ':' || c = '-') && gapAfter)
  | some b => (c = ':' && gapAfter) || (c = '#' && (isBlank b || isBreak b))

def hasIndicator (before : Option Char) : List Char → Bool
  | [] => false
  | c :: cs => isIndicator before c cs || hasIndicator (some c) cs

def hasBreakSpace : List Char → Bool
  | a :: b :: cs => (isBreak a && b = ' ') || hasBreakSpace (b :: cs)
  | _ => false

def hasSpaceBreak : List Char → Bool
  | a :: b :: cs => (a = ' ' && isBreak b) || hasSpaceBreak (b :: cs)
  | _ => false

/-! ## Styles -/

inductive ScalarStyle where
  | plain | single | double | block
  deriving DecidableEq, Repr, Inhabited

def styleOf (s : String) : ScalarStyle :=
  let cs := s.toList
  let special := cs.any fun c => c ≠ '\t' && !isShown c
  let edge := fun c : Option Char => match c with
    | some c => c = ' ' || isBreak c
    | none => false
  if cs.contains '\n' then
    if cs.getLast? = some ' ' || hasSpaceBreak cs || special then .double else .block
  else if isMisleading s then .double
  else if hasBreakSpace cs || hasSpaceBreak cs || special || cs.contains '\t' then .double
  else if edge cs.head? || edge cs.getLast? || cs.any isBreak then .single
  else if hasIndicator none cs || s.startsWith "---" || s.startsWith "..." then .single
  else .plain

def upperHex (width n : Nat) : String :=
  String.ofList ((Text.hexPadded width n).toList.map Char.toUpper)

def escapeText (c : Char) : String :=
  match c.toNat with
  | 0x00 => "\\0"
  | 0x07 => "\\a"
  | 0x08 => "\\b"
  | 0x09 => "\\t"
  | 0x0a => "\\n"
  | 0x0b => "\\v"
  | 0x0c => "\\f"
  | 0x0d => "\\r"
  | 0x1b => "\\e"
  | 0x22 => "\\\""
  | 0x5c => "\\\\"
  | 0x85 => "\\N"
  | 0xa0 => "\\_"
  | 0x2028 => "\\L"
  | 0x2029 => "\\P"
  | n =>
    if n ≤ 0xff then "\\x" ++ upperHex 2 n
    else if n ≤ 0xffff then "\\u" ++ upperHex 4 n
    else "\\U" ++ upperHex 8 n

def isUnescaped (c : Char) : Bool := isShown c && !isBreak c && c ≠ '"' && c ≠ '\\'

/-- A text between double quotes. In a text that starts with a byte order mark, every character is
    escaped. -/
def doubleText (s : String) : String :=
  let all := s.toList.head? = some '\ufeff'
  let shown := s.toList.map fun c =>
    if !all && isUnescaped c then String.ofList [c] else escapeText c
  "\"" ++ String.join shown ++ "\""

def padding (indent : Nat) : List Char := List.replicate indent ' '

/-- A text between single quotes, where a quote is written twice. After line breaks the text goes on
    with an indented line. -/
def singleChars (indent : Nat) (afterBreak : Bool) : List Char → List Char
  | [] => []
  | c :: cs =>
    if isBreak c then c :: singleChars indent true cs
    else
      let pad := if afterBreak then padding indent else []
      pad ++ (if c = '\'' then ['\'', '\''] else [c]) ++ singleChars indent false cs

def singleText (indent : Nat) (s : String) : String :=
  "'" ++ String.ofList (singleChars indent false s.toList) ++ "'"

/-- The lines of a block. `fresh` says that a line has just been ended, and `inLine` that one has been
    begun; the first line goes on from the mark of the block. The last line is ended, too. -/
def blockChars (indent : Nat) (inLine fresh : Bool) : List Char → List Char
  | [] => if fresh then [] else ['\n']
  | c :: cs =>
    if isBreak c then c :: blockChars indent false true cs
    else if inLine then c :: blockChars indent true false cs
    else
      let lineEnd := if fresh then [] else ['\n']
      lineEnd ++ padding indent ++ c :: blockChars indent true false cs

/-- The signs after the mark of a block: the indentation, if it does not show, and what becomes of the
    line breaks at the end. -/
def blockSigns (cs : List Char) : String :=
  let hint := if cs.head?.any (fun c => c = ' ' || isBreak c) then "2" else ""
  let trailing := (cs.reverse.takeWhile isBreak).length
  let chomp := if trailing = 0 then "-" else if trailing = cs.length || 1 < trailing then "+" else ""
  hint ++ chomp

/-- A text as the value of an entry, with the end of the line, where further lines of the text have the
    given indentation. -/
def scalarText (indent : Nat) (s : String) : String :=
  match styleOf s with
  | .plain => s ++ "\n"
  | .single => singleText indent s ++ "\n"
  | .double => doubleText s ++ "\n"
  | .block => "|" ++ blockSigns s.toList ++ String.ofList (blockChars indent false false s.toList)

/-! ## Settings -/

def settingText : Setting → String
  | .int n => toString n ++ "\n"
  | .text s => scalarText 4 s
  | .flag b => if b then "true\n" else "false\n"

def sectionText (c : Config) (s : Section) : String :=
  let fields := s.fields.map fun f => "  " ++ f.key ++ ": " ++ settingText (f.get c)
  s.key ++ ":\n" ++ String.join fields

def configText (c : Config) : String := String.join (Section.all.map (sectionText c))

end KestrelLang.Yaml
