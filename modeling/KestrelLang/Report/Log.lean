import KestrelLang.Text.Strings

/-! # Events and log lines

* `Level` — how important an event is, and in which order.
* `Event` — a record of something that a host may want to see.
* `Level.ofText?` — the level that a setting names.
* `LogFormat` — how a line is written; `LogFormat.choose?` picks one for a setting.
* `Logger` — the least level to be written, and the format.
* `Logger.line?` — the line of an event, without its time. -/

namespace KestrelLang

/-! ## Events -/

inductive Level where
  | debug | info | warn | error
  deriving DecidableEq, Repr, Inhabited

/-- The rank of a level; a higher one is more important. -/
def Level.rank : Level → Nat
  | .debug => 0
  | .info => 1
  | .warn => 2
  | .error => 3

def Level.text : Level → String
  | .debug => "DEBUG"
  | .info => "INFO"
  | .warn => "WARN"
  | .error => "ERROR"

structure Event where
  level : Level
  message : String
  details : List (String × String)
  deriving DecidableEq, Repr, Inhabited

/-! ## Settings -/

/-- The level that a setting names; white space around it and capitals do not matter. -/
def Level.ofText? (name : String) : Option Level :=
  match Text.lowerAscii (Text.trim name) with
  | "debug" | "trace" => some .debug
  | "" | "info" => some .info
  | "warn" | "warning" => some .warn
  | "error" | "crit" => some .error
  | _ => none

def Level.unknownText (name : String) : String := "unknown log level " ++ Text.quote name

inductive LogFormat where
  | text | json
  deriving DecidableEq, Repr, Inhabited

namespace LogFormat

/-- The format for a setting. Left open, it is text for a terminal and JSON for all else. -/
def choose? (setting : String) (terminal : Bool) : Option LogFormat :=
  match setting with
  | "" | "auto" => some (if terminal then .text else .json)
  | "text" => some .text
  | "json" => some .json
  | _ => none

def unknownText (setting : String) : String := "unknown log format " ++ Text.quote setting

end LogFormat

/-! ## Text -/

/-- A character that makes a text need quotes: one that separates, that quotes, or that cannot be
    seen. -/
def needsQuotes (c : Char) : Bool :=
  let n := c.toNat
  if n < 0x80 then n ≤ 0x20 || c = '=' || c = '"'
  else n = 0xfffd || Text.isBlank c || !Text.isPrintable c

def textField (s : String) : String :=
  if s = "" || s.toList.any needsQuotes then Text.quote s else s

/-! ## JSON -/

def jsonChar (c : Char) : String :=
  match c with
  | '"' => "\\\""
  | '\\' => "\\\\"
  | '\n' => "\\n"
  | '\r' => "\\r"
  | '\t' => "\\t"
  | c =>
    if c.toNat < 0x20 || c.toNat = 0x2028 || c.toNat = 0x2029 then "\\u" ++ Text.hexPadded 4 c.toNat
    else String.ofList [c]

def jsonString (s : String) : String := "\"" ++ String.join (s.toList.map jsonChar) ++ "\""

/-! ## Lines -/

structure Logger where
  least : Level
  format : LogFormat
  deriving DecidableEq, Repr, Inhabited

namespace Logger

/-- The logger for settings; the complaint is about the level first. -/
def new (level format : String) (terminal : Bool) : Except String Logger :=
  match Level.ofText? level with
  | none => .error (Level.unknownText level)
  | some least =>
    match LogFormat.choose? format terminal with
    | none => .error (LogFormat.unknownText format)
    | some f => .ok ⟨least, f⟩

/-- The line of an event without its time, if the event is important enough. -/
def line? (l : Logger) (e : Event) : Option String :=
  if e.level.rank < l.least.rank then none
  else
    let fields := [("level", e.level.text), ("msg", e.message)] ++ e.details
    match l.format with
    | .text => some (" ".intercalate (fields.map fun (k, v) => textField k ++ "=" ++ textField v))
    | .json =>
      let parts := fields.map fun (k, v) => jsonString k ++ ":" ++ jsonString v
      some ("\x7b" ++ ",".intercalate parts ++ "\x7d")

end Logger

end KestrelLang
